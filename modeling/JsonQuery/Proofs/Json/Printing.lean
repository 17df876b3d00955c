import JsonQuery.Proofs.Json.Words

/-!
# Printed JSON loses nothing

The words of a document with finite numbers tell the document: their first characters tell the
kinds of its parts, and the word of a scalar tells the scalar.  So neither compact nor indented text
is the text of two documents.
-/

set_option autoImplicit false

namespace JsonQuery.Json

mutual

/-- All numbers are finite, at every depth. -/
def isFinite : Json → Bool
  | .null | .bool _ | .int _ | .string _ => true
  | .float x => Binary64.isFinite x
  | .array items => listIsFinite items
  | .object entries => entriesAreFinite entries
termination_by structural json => json

def listIsFinite : List Json → Bool
  | [] => true
  | item :: rest => isFinite item && listIsFinite rest
termination_by structural items => items

def entriesAreFinite : List (String × Json) → Bool
  | [] => true
  | (_, v) :: rest => isFinite v && entriesAreFinite rest
termination_by structural entries => entries

end

/-! ## First characters -/

/-- The first character of the text of a document, with `0` for every number. -/
def lead : Json → Char
  | .null => 'n'
  | .bool true => 't'
  | .bool false => 'f'
  | .int _ | .float _ => '0'
  | .string _ => '\x22'
  | .array _ => '['
  | .object _ => '\x7b'

/-- All first characters of numbers become one. -/
def leadOf (word : List Char) : Option Char :=
  word.head?.map fun c => if startsNumeral c then '0' else c

theorem leadOf_signed {parts : Numeral.Parts} (numeral : parts.IsNumeral) (negative : Bool) :
    leadOf (parts.signed negative) = some '0' := by
  obtain ⟨c, rest, spelled, digit⟩ := Numeral.Parts.text_head numeral
  rw [Numeral.Parts.signed, spelled]
  cases negative with
  | true => rfl
  | false =>
      have starts : startsNumeral c = true := by rw [startsNumeral, digit, Bool.true_or]
      exact congrArg some (if_pos starts)

theorem leadOf_floatText {x : Float} (finite : Binary64.isFinite x = true) :
    leadOf (floatText x) = some '0' := by
  obtain ⟨parts, numeral, -, text, -⟩ := Shortest.write_parts numberStyle finite
  rw [floatText, if_pos finite, text]
  exact leadOf_signed numeral _

/-- The first word of a document has its first character. -/
theorem spelling_lead : ∀ {json : Json}, json.isFinite = true →
    ∃ word rest, json.spelling = word :: rest ∧ leadOf word = some json.lead
  | .null, _ | .bool true, _ | .bool false, _ | .string _, _ | .array _, _ | .object _, _ =>
      ⟨_, _, rfl, rfl⟩
  | .int n, _ => ⟨_, _, rfl, by rw [intText_eq]; exact leadOf_signed (isNumeral_wholeParts _) _⟩
  | .float _, finite => ⟨_, _, rfl, leadOf_floatText finite⟩

theorem lead_eq {j k : Json} (finite : j.isFinite = true) (finite' : k.isFinite = true)
    {r s : List (List Char)} (same : j.spelling ++ r = k.spelling ++ s) : j.lead = k.lead := by
  obtain ⟨word, rest, spelled, lead⟩ := spelling_lead finite
  obtain ⟨word', rest', spelled', lead'⟩ := spelling_lead finite'
  rw [spelled, spelled'] at same
  rw [(List.cons.inj same).1, lead'] at lead
  exact (Option.some.inj lead).symm

/-- No document starts with a closing bracket. -/
theorem spelling_ne_close {j : Json} (finite : j.isFinite = true) {c : Char}
    (close : c = ']' ∨ c = '\x7d') (r s : List (List Char)) : j.spelling ++ r ≠ [c] :: s := by
  intro same
  obtain ⟨word, rest, spelled, lead⟩ := spelling_lead finite
  rw [spelled] at same
  rw [(List.cons.inj same).1] at lead
  rcases close with rfl | rfl <;> rcases j with _ | (_ | _) | _ | _ | _ | _ | _ <;> cases lead

/-! ## Scalars -/

theorem intText_injective {m n : Int64} (same : intText m.toInt = intText n.toInt) : m = n := by
  rw [intText_eq, intText_eq] at same
  obtain ⟨signs, parts⟩ := Numeral.Parts.signed_inj (isNumeral_wholeParts _)
    (isNumeral_wholeParts _) same
  have digits : m.toInt.natAbs = n.toInt.natAbs := by
    have read := congrArg (fun parts => Numeral.natOfDigits parts.whole) parts
    simpa only [wholeParts, Numeral.natOfDigits_digitChars] using read
  rw [decide_eq_decide] at signs
  exact Int64.toInt_inj.mp (by omega)

theorem floatText_injective {x y : Float} (finite : Binary64.isFinite x = true)
    (finite' : Binary64.isFinite y = true) (same : floatText x = floatText y) : x = y := by
  rw [floatText, floatText, if_pos finite, if_pos finite'] at same
  exact Shortest.write_injective numberStyle finite finite' same

/-- A number that is no integer has a point or an exponent. -/
theorem intText_ne_floatText {n : Int} {x : Float} (finite : Binary64.isFinite x = true) :
    intText n ≠ floatText x := by
  intro same
  obtain ⟨parts, numeral, point, text, -⟩ := Shortest.write_parts numberStyle finite
  rw [intText_eq, floatText, if_pos finite, text] at same
  obtain ⟨-, rfl⟩ := Numeral.Parts.signed_inj (isNumeral_wholeParts n) numeral same
  cases point

theorem stringText_injective {s t : String} (same : stringText s = stringText t) : s = t := by
  have read := string?_stringText s
  rw [same, string?_stringText] at read
  exact (Option.some.inj read).symm

/-- The word of a scalar tells the scalar. -/
theorem scalar_inj {j k : Json} {r s : List (List Char)} (finite : j.isFinite = true)
    (finite' : k.isFinite = true) (noArray : ∀ items, j ≠ .array items)
    (noObject : ∀ entries, j ≠ .object entries) (same : j.spelling ++ r = k.spelling ++ s) :
    j = k ∧ r = s := by
  have leads := lead_eq finite finite' same
  rcases j with _ | (_ | _) | m | x | t | items | entries
  case array => exact absurd rfl (noArray items)
  case object => exact absurd rfl (noObject entries)
  all_goals rcases k with _ | (_ | _) | n | y | u | _ | _
  -- the first characters leave pairs of one kind, and integers beside other numbers
  all_goals cases leads
  all_goals obtain ⟨text, behind⟩ := List.cons.inj same
  case int.int => exact ⟨congrArg Json.int (intText_injective text), behind⟩
  case int.float => exact absurd text (intText_ne_floatText finite')
  case float.int => exact absurd text.symm (intText_ne_floatText finite)
  case float.float => exact ⟨congrArg Json.float (floatText_injective finite finite' text), behind⟩
  case string.string => exact ⟨congrArg Json.string (stringText_injective text), behind⟩
  all_goals exact ⟨rfl, behind⟩

/-! ## Documents -/

mutual

theorem spelling_inj : ∀ {j k : Json} {r s : List (List Char)}, j.isFinite = true →
    k.isFinite = true → j.spelling ++ r = k.spelling ++ s → j = k ∧ r = s
  | .array items, k, r, s, finite, finite', same => by
      have leads := lead_eq finite finite' same
      rcases k with _ | (_ | _) | _ | _ | _ | items' | _
      case array =>
        obtain ⟨rfl, behind⟩ := itemsSpelling_inj finite finite' (List.cons.inj same).2
        exact ⟨rfl, behind⟩
      all_goals cases leads
  | .object entries, k, r, s, finite, finite', same => by
      have leads := lead_eq finite finite' same
      rcases k with _ | (_ | _) | _ | _ | _ | _ | entries'
      case object =>
        obtain ⟨rfl, behind⟩ := entriesSpelling_inj finite finite' (List.cons.inj same).2
        exact ⟨rfl, behind⟩
      all_goals cases leads
  | .null, _, _, _, finite, finite', same | .bool _, _, _, _, finite, finite', same
  | .int _, _, _, _, finite, finite', same | .float _, _, _, _, finite, finite', same
  | .string _, _, _, _, finite, finite', same => scalar_inj finite finite' nofun nofun same
termination_by structural j => j

theorem itemsSpelling_inj : ∀ {items items' : List Json} {r s : List (List Char)},
    listIsFinite items = true → listIsFinite items' = true →
      itemsSpelling items ++ r = itemsSpelling items' ++ s → items = items' ∧ r = s
  | [], [], _, _, _, _, same => ⟨rfl, (List.cons.inj same).2⟩
  | [], item' :: rest', _, _, _, finite', same => by
      simp only [listIsFinite, Bool.and_eq_true] at finite'
      rw [itemsSpelling, itemsSpelling, List.append_assoc] at same
      exact absurd same.symm (spelling_ne_close finite'.1 (.inl rfl) _ _)
  | item :: rest, [], _, _, finite, _, same => by
      simp only [listIsFinite, Bool.and_eq_true] at finite
      rw [itemsSpelling, itemsSpelling, List.append_assoc] at same
      exact absurd same (spelling_ne_close finite.1 (.inl rfl) _ _)
  | item :: rest, item' :: rest', _, _, finite, finite', same => by
      simp only [listIsFinite, Bool.and_eq_true] at finite finite'
      rw [itemsSpelling, itemsSpelling, List.append_assoc, List.append_assoc] at same
      obtain ⟨rfl, others⟩ := spelling_inj finite.1 finite'.1 same
      obtain ⟨rfl, behind⟩ := moreItemsSpelling_inj finite.2 finite'.2 others
      exact ⟨rfl, behind⟩
termination_by structural items => items

theorem moreItemsSpelling_inj : ∀ {items items' : List Json} {r s : List (List Char)},
    listIsFinite items = true → listIsFinite items' = true →
      moreItemsSpelling items ++ r = moreItemsSpelling items' ++ s → items = items' ∧ r = s
  | [], [], _, _, _, _, same => ⟨rfl, (List.cons.inj same).2⟩
  | [], _ :: _, _, _, _, _, same => by cases (List.cons.inj same).1
  | _ :: _, [], _, _, _, _, same => by cases (List.cons.inj same).1
  | item :: rest, item' :: rest', _, _, finite, finite', same => by
      simp only [listIsFinite, Bool.and_eq_true] at finite finite'
      rw [moreItemsSpelling, moreItemsSpelling, List.cons_append, List.cons_append,
        List.append_assoc, List.append_assoc] at same
      obtain ⟨rfl, others⟩ := spelling_inj finite.1 finite'.1 (List.cons.inj same).2
      obtain ⟨rfl, behind⟩ := moreItemsSpelling_inj finite.2 finite'.2 others
      exact ⟨rfl, behind⟩
termination_by structural items => items

theorem entriesSpelling_inj : ∀ {entries entries' : List (String × Json)}
    {r s : List (List Char)}, entriesAreFinite entries = true →
      entriesAreFinite entries' = true →
        entriesSpelling entries ++ r = entriesSpelling entries' ++ s → entries = entries' ∧ r = s
  | [], [], _, _, _, _, same => ⟨rfl, (List.cons.inj same).2⟩
  | [], (_, _) :: _, _, _, _, _, same => by cases (List.cons.inj same).1
  | (_, _) :: _, [], _, _, _, _, same => by cases (List.cons.inj same).1
  | (key, v) :: rest, (key', v') :: rest', _, _, finite, finite', same => by
      simp only [entriesAreFinite, Bool.and_eq_true] at finite finite'
      simp only [entriesSpelling, List.cons_append, List.append_assoc] at same
      obtain ⟨keys, behindKey⟩ := List.cons.inj same
      obtain rfl := stringText_injective keys
      obtain ⟨rfl, others⟩ := spelling_inj finite.1 finite'.1 (List.cons.inj behindKey).2
      obtain ⟨rfl, behind⟩ := moreEntriesSpelling_inj finite.2 finite'.2 others
      exact ⟨rfl, behind⟩
termination_by structural entries => entries

theorem moreEntriesSpelling_inj : ∀ {entries entries' : List (String × Json)}
    {r s : List (List Char)}, entriesAreFinite entries = true →
      entriesAreFinite entries' = true →
        moreEntriesSpelling entries ++ r = moreEntriesSpelling entries' ++ s →
          entries = entries' ∧ r = s
  | [], [], _, _, _, _, same => ⟨rfl, (List.cons.inj same).2⟩
  | [], (_, _) :: _, _, _, _, _, same => by cases (List.cons.inj same).1
  | (_, _) :: _, [], _, _, _, _, same => by cases (List.cons.inj same).1
  | (key, v) :: rest, (key', v') :: rest', _, _, finite, finite', same => by
      simp only [entriesAreFinite, Bool.and_eq_true] at finite finite'
      simp only [moreEntriesSpelling, List.cons_append, List.append_assoc] at same
      obtain ⟨keys, behindKey⟩ := List.cons.inj (List.cons.inj same).2
      obtain rfl := stringText_injective keys
      obtain ⟨rfl, others⟩ := spelling_inj finite.1 finite'.1 (List.cons.inj behindKey).2
      obtain ⟨rfl, behind⟩ := moreEntriesSpelling_inj finite.2 finite'.2 others
      exact ⟨rfl, behind⟩
termination_by structural entries => entries

end

/-- Neither compact nor indented text is the text of two documents with finite numbers. -/
theorem eq_of_encode {j k : Json} (finite : j.isFinite = true) (finite' : k.isFinite = true)
    (same : j.encode = k.encode ∨ j.encodeIndented = k.encodeIndented) : j = k := by
  have spelled : j.spelling = k.spelling := by
    rcases same with compact | indented
    · rw [← words_encode, compact, words_encode]
    · rw [← words_encodeIndented, indented, words_encodeIndented]
  exact (spelling_inj finite finite' (congrArg (· ++ ([] : List (List Char))) spelled)).1

end JsonQuery.Json
