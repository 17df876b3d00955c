import JsonQuery.Proofs.Evaluation.Lossless
import JsonQuery.Proofs.Json.Document

/-!
# Printed JSON is read back

Every word of a printed document is read as the symbol that it was printed for, integers of
sixty-four bits included.  The reader takes the symbols of a value off whatever is open around it
and leaves the value behind; it fails only where the value goes deeper than the reader does.
-/

set_option autoImplicit false

namespace JsonQuery

namespace Value

mutual

/-- All numbers are integers, at every depth. -/
def isIntegral : Value → Bool
  | .float _ => false
  | .array items => listIsIntegral items
  | .object entries => entriesAreIntegral entries
  | _ => true
termination_by structural v => v

def listIsIntegral : List Value → Bool
  | [] => true
  | v :: rest => isIntegral v && listIsIntegral rest
termination_by structural items => items

def entriesAreIntegral : List (String × Value) → Bool
  | [] => true
  | (_, v) :: rest => isIntegral v && entriesAreIntegral rest
termination_by structural entries => entries

end

mutual

/-- How many arrays and objects are inside of each other, those without contents included. -/
def depth : Value → Nat
  | .array items => listDepth items + 1
  | .object entries => entriesDepth entries + 1
  | _ => 0
termination_by structural v => v

def listDepth : List Value → Nat
  | [] => 0
  | v :: rest => max (depth v) (listDepth rest)
termination_by structural items => items

def entriesDepth : List (String × Value) → Nat
  | [] => 0
  | (_, v) :: rest => max (depth v) (entriesDepth rest)
termination_by structural entries => entries

end

end Value

namespace Json

/-! ## Integers -/

section Integers

open Numeral

theorem le_foldl_digits (ds : List Char) (n : Nat) :
    n ≤ ds.foldl (fun n c => 10 * n + digit c) n := by
  induction ds generalizing n with
  | nil => exact Nat.le_refl n
  | cons d ds ih =>
      have later := ih (10 * n + digit d)
      rw [List.foldl_cons]
      omega

/-- All digits are taken as long as their number is below the bound. -/
theorem accumulate_of_lt {ds : List Char} {significand : Nat} (taken : Nat)
    (fits : ds.foldl (fun n c => 10 * n + digit c) significand < twoPow 64) :
    accumulate significand taken ds =
      ⟨ds.foldl (fun n c => 10 * n + digit c) significand, taken + ds.length, 0⟩ := by
  induction ds generalizing significand taken with
  | nil => rfl
  | cons d ds ih =>
      rw [List.foldl_cons] at fits
      have first := Nat.lt_of_le_of_lt (le_foldl_digits ds _) fits
      rw [accumulate, if_pos first, ih (taken + 1) fits, List.foldl_cons, List.length_cons,
        Nat.add_assoc, Nat.add_comm 1]

theorem digitChars_head {n : Nat} (positive : 0 < n) :
    ∀ c ∈ (Shortest.digitChars n).head?, c ≠ '0' := by
  induction n using Nat.strong_induction_on with
  | h n ih =>
      by_cases small : n < 10
      · rw [Shortest.digitChars, Nat.toDigits_of_lt_base small]
        rintro c ⟨⟩
        interval_cases n <;> decide
      · have shorter := ih (n / 10) (by omega) (by omega)
        rw [Shortest.digitChars, Nat.toDigits_of_base_le (by decide) (by omega),
          List.head?_append_of_ne_nil _ Nat.toDigits_ne_nil]
        exact shorter

theorem isWholePart_digitChars (n : Nat) : isWholePart (Shortest.digitChars n) = true := by
  rcases Nat.eq_zero_or_pos n with rfl | positive
  · decide
  · have head := digitChars_head positive
    have digits := all_isDigit_digitChars n
    cases spelled : Shortest.digitChars n with
    | nil => exact absurd spelled Nat.toDigits_ne_nil
    | cons d ds =>
        rw [spelled] at head digits
        have noZero : d ≠ '0' := head d rfl
        unfold isWholePart
        split
        · contradiction
        · rfl
        · rename_i same
          cases same
          rw [digits, decide_eq_true noZero]
          rfl

theorem number?_signed (n : Int) (negative : Bool) (fits : n.natAbs < twoPow 64) :
    number? ((wholeParts n).signed negative) = some (whole negative n.natAbs) := by
  have numeral := isNumeral_wholeParts n
  have read := Parts.split?_text numeral
  have started : isWholePart (wholeParts n).whole = true := isWholePart_digitChars n.natAbs
  have taken : accumulate 0 0 (wholeParts n).whole =
      ⟨n.natAbs, 0 + (wholeParts n).whole.length, 0⟩ := by
    have value : (wholeParts n).whole.foldl (fun n c => 10 * n + digit c) 0 = n.natAbs :=
      natOfDigits_digitChars n.natAbs
    rw [accumulate_of_lt 0 (by rwa [value]), value]
  cases negative with
  | true =>
      rw [Parts.signed, if_pos rfl, number?, read]
      simp only [taken, started]
      rfl
  | false =>
      have unsigned : ∀ behind, (wholeParts n).text = '-' :: behind → False := by
        intro behind same
        obtain ⟨c, rest, spelled, isDigit⟩ := Parts.text_head numeral
        rw [spelled] at same
        cases same
        cases isDigit
      rw [Parts.signed, if_neg Bool.false_ne_true, number?, read]
      · simp only [taken, started]
        rfl
      · exact unsigned

/-- An integer is whole again with its sign, the least one included. -/
theorem whole_natAbs (n : Int64) : whole (decide (n.toInt < 0)) n.toInt.natAbs = .int n := by
  have low := n.le_toInt
  have high := n.toInt_lt
  have bound : twoPow 63 = 2 ^ 63 := Binary64.twoPow_eq 63
  unfold whole
  by_cases negative : n.toInt < 0
  · have absolute : -(n.toInt.natAbs : Int) = n.toInt := by omega
    rw [if_pos (decide_eq_true negative), if_neg (by omega), absolute, Int64.ofInt_toInt]
  · have absolute : (n.toInt.natAbs : Int) = n.toInt := by omega
    rw [if_neg (by rwa [decide_eq_true_eq]), if_pos (by omega), absolute, Int64.ofInt_toInt]

/-- Integers of sixty-four bits are read as themselves. -/
theorem number?_intText (n : Int64) : number? (intText n.toInt) = some (.int n) := by
  have low := n.le_toInt
  have high := n.toInt_lt
  have bound : twoPow 64 = 2 ^ 64 := Binary64.twoPow_eq 64
  rw [intText_eq, number?_signed n.toInt _ (by omega), whole_natAbs]

end Integers

/-! ## Symbols of documents -/

mutual

/-- The symbols of a document. -/
def symbols : Json → List Symbol
  | .array items => .beginArray :: itemsSymbols items
  | .object entries => .beginObject :: entriesSymbols entries
  | .null => [.scalar .null]
  | .bool b => [.scalar (.bool b)]
  | .int n => [.scalar (.int n)]
  | .float x => [.scalar (.float x)]
  | .string s => [.scalar (.string s)]
termination_by structural json => json

def itemsSymbols : List Json → List Symbol
  | [] => [.endArray]
  | item :: rest => symbols item ++ moreItemsSymbols rest
termination_by structural items => items

def moreItemsSymbols : List Json → List Symbol
  | [] => [.endArray]
  | item :: rest => .comma :: (symbols item ++ moreItemsSymbols rest)
termination_by structural items => items

def entriesSymbols : List (String × Json) → List Symbol
  | [] => [.endObject]
  | (key, v) :: rest =>
      .scalar (.string key) :: .colon :: (symbols v ++ moreEntriesSymbols rest)
termination_by structural entries => entries

def moreEntriesSymbols : List (String × Json) → List Symbol
  | [] => [.endObject]
  | (key, v) :: rest =>
      .comma :: .scalar (.string key) :: .colon :: (symbols v ++ moreEntriesSymbols rest)
termination_by structural entries => entries

end

/-- The words are the spellings of the symbols. -/
def Spell (words : List (List Char)) (symbols : List Symbol) : Prop :=
  words.mapM Symbol.ofSpelling? = some symbols

theorem Spell.nil : Spell [] [] :=
  rfl

theorem Spell.cons {word : List Char} {words : List (List Char)} {symbol : Symbol}
    {symbols : List Symbol} (first : Symbol.ofSpelling? word = some symbol)
    (others : Spell words symbols) : Spell (word :: words) (symbol :: symbols) := by
  rw [Spell, List.mapM_cons, first, others]
  rfl

theorem Spell.append {words words' : List (List Char)} {symbols symbols' : List Symbol}
    (first : Spell words symbols) (others : Spell words' symbols') :
    Spell (words ++ words') (symbols ++ symbols') := by
  rw [Spell, List.mapM_append, first, others]
  rfl

theorem ofSpelling?_intText (n : Int64) :
    Symbol.ofSpelling? (intText n.toInt) = some (.scalar (.int n)) := by
  have lead : leadOf (intText n.toInt) = some '0' := by
    rw [intText_eq]
    exact leadOf_signed (isNumeral_wholeParts _) _
  have read := number?_intText n
  generalize intText n.toInt = word at lead read
  unfold Symbol.ofSpelling?
  split
  case h_11 => rw [read, Option.map_some]
  -- no other word starts like a number
  all_goals cases lead

theorem ofSpelling?_stringText (s : String) :
    Symbol.ofSpelling? (stringText s) = some (.scalar (.string s)) :=
  congrArg (Option.map fun s => Symbol.scalar (.string s)) (string?_stringText s)

/-- All numbers of the JSON tree are integers. -/
def IsIntegral (json : Json) : Prop :=
  (Value.ofJson json).isIntegral = true

theorem isIntegral_array_iff {items : List Json} :
    (Json.array items).IsIntegral ↔ ∀ v ∈ items, v.IsIntegral := by
  simp only [IsIntegral, Value.ofJson, Value.isIntegral]
  induction items with
  | nil => simp [Value.ofJsonList, Value.listIsIntegral]
  | cons v rest ih => simp [Value.ofJsonList, Value.listIsIntegral, ih]

theorem isIntegral_object_iff {entries : Entries Json} :
    (Json.object entries).IsIntegral ↔ ∀ entry ∈ entries, entry.2.IsIntegral := by
  simp only [IsIntegral, Value.ofJson, Value.isIntegral]
  induction entries with
  | nil => simp [Value.ofJsonEntries, Value.entriesAreIntegral]
  | cons entry rest ih => simp [Value.ofJsonEntries, Value.entriesAreIntegral, ih]

mutual

/-- The words of a document without numbers but integers are read as its symbols. -/
theorem spell_spelling : ∀ {json : Json}, json.IsIntegral → Spell json.spelling json.symbols
  | .null, _ | .bool true, _ | .bool false, _ => rfl
  | .int n, _ => Spell.nil.cons (ofSpelling?_intText n)
  | .float _, integral => by cases integral
  | .string s, _ => Spell.nil.cons (ofSpelling?_stringText s)
  | .array items, integral =>
      (spell_itemsSpelling (isIntegral_array_iff.mp integral)).cons rfl
  | .object entries, integral =>
      (spell_entriesSpelling (isIntegral_object_iff.mp integral)).cons rfl
termination_by structural json => json

theorem spell_itemsSpelling : ∀ {items : List Json}, (∀ v ∈ items, v.IsIntegral) →
    Spell (itemsSpelling items) (itemsSymbols items)
  | [], _ => rfl
  | item :: rest, integral => by
      obtain ⟨first, others⟩ := List.forall_mem_cons.mp integral
      exact (spell_spelling first).append (spell_moreItemsSpelling others)
termination_by structural items => items

theorem spell_moreItemsSpelling : ∀ {items : List Json}, (∀ v ∈ items, v.IsIntegral) →
    Spell (moreItemsSpelling items) (moreItemsSymbols items)
  | [], _ => rfl
  | item :: rest, integral => by
      obtain ⟨first, others⟩ := List.forall_mem_cons.mp integral
      exact ((spell_spelling first).append (spell_moreItemsSpelling others)).cons rfl
termination_by structural items => items

theorem spell_entriesSpelling : ∀ {entries : List (String × Json)},
    (∀ entry ∈ entries, entry.2.IsIntegral) →
      Spell (entriesSpelling entries) (entriesSymbols entries)
  | [], _ => rfl
  | (key, v) :: rest, integral => by
      obtain ⟨first, others⟩ := List.forall_mem_cons.mp integral
      have behind := (spell_spelling first).append (spell_moreEntriesSpelling others)
      exact (behind.cons rfl).cons (ofSpelling?_stringText key)
termination_by structural entries => entries

theorem spell_moreEntriesSpelling : ∀ {entries : List (String × Json)},
    (∀ entry ∈ entries, entry.2.IsIntegral) →
      Spell (moreEntriesSpelling entries) (moreEntriesSymbols entries)
  | [], _ => rfl
  | (key, v) :: rest, integral => by
      obtain ⟨first, others⟩ := List.forall_mem_cons.mp integral
      have behind := (spell_spelling first).append (spell_moreEntriesSpelling others)
      exact ((behind.cons rfl).cons (ofSpelling?_stringText key)).cons rfl
termination_by structural entries => entries

end

/-! ## Reading symbols -/

/-- How many arrays and objects of the JSON tree are inside of each other. -/
def depth (json : Json) : Nat :=
  (Value.ofJson json).depth

def itemsDepth (items : List Json) : Nat :=
  Value.listDepth (Value.ofJsonList items)

def entriesDepth (entries : List (String × Json)) : Nat :=
  Value.entriesDepth (Value.ofJsonEntries entries)

theorem itemsDepth_cons (item : Json) (rest : List Json) :
    itemsDepth (item :: rest) = max item.depth (itemsDepth rest) :=
  rfl

theorem entriesDepth_cons (key : String) (v : Json) (rest : List (String × Json)) :
    entriesDepth ((key, v) :: rest) = max v.depth (entriesDepth rest) :=
  rfl

theorem ite_max_le {α : Type} {base a b bound : Nat} {x y : α} :
    (if base + max a b ≤ bound then x else y) =
      if base + a ≤ bound then (if base + b ≤ bound then x else y) else y := by
  rw [← ite_and]
  have both : base + max a b ≤ bound ↔ base + a ≤ bound ∧ base + b ≤ bound := by omega
  simp only [both]

/-- A key that does not come again is inserted at the end. -/
theorem insert_eq_append {read more : Entries Json} {key : String} {v : Json}
    (distinct : (Entries.keys (read ++ (key, v) :: more)).Nodup) :
    Entries.insert key v read = read ++ [(key, v)] := by
  apply Entries.insert_of_notMem
  rw [Entries.keys, List.map_append, List.map_cons] at distinct
  intro found
  exact (List.nodup_append.mp distinct).2.2 key found key List.mem_cons_self rfl

namespace Reader

theorem run?_cons_of_step {reader next : Reader} {symbol : Symbol}
    (step : reader.step? symbol = some next) (rest : List Symbol) :
    run? reader (symbol :: rest) = run? next rest := by
  rw [run?, step]

/-- No value starts with the end of an array. -/
theorem run?_firstItem (json : Json) (stack : List Container) (rest : List Symbol) :
    run? ⟨.firstItem, stack⟩ (json.symbols ++ rest) =
      run? ⟨.value, .array [] :: stack⟩ (json.symbols ++ rest) := by
  cases json <;> rfl

/-- An array or object opens where one more may be open. -/
theorem run?_open {reader : Reader} {symbol : Symbol} {expects : Expectation}
    (opens : reader.step? symbol = open? expects reader.stack) (rest : List Symbol) :
    run? reader (symbol :: rest) =
      if reader.stack.length < maxDepth then run? ⟨expects, reader.stack⟩ rest else none := by
  rw [run?, opens, open?]
  split_ifs <;> rfl

mutual

/-- A value is taken off in front of whatever is behind it, if its arrays and objects may be open
inside those that are. -/
theorem run?_value : ∀ {json : Json}, json.IsDocument → ∀ stack : List Container,
    stack.length ≤ maxDepth → ∀ rest : List Symbol,
      run? ⟨.value, stack⟩ (json.symbols ++ rest) =
        if stack.length + json.depth ≤ maxDepth then run? ⟨.after json, stack⟩ rest else none
  | .null, _, _, within, _ | .bool _, _, _, within, _ | .int _, _, _, within, _
  | .float _, _, _, within, _ | .string _, _, _, within, _ => (if_pos within).symm
  | .array items, document, stack, within, rest => by
      have opened : run? ⟨.value, stack⟩ (.beginArray :: (itemsSymbols items ++ rest)) =
          if stack.length < maxDepth then run? ⟨.firstItem, stack⟩ (itemsSymbols items ++ rest)
          else none := run?_open rfl _
      rw [symbols, List.cons_append, opened]
      by_cases room : stack.length < maxDepth
      · rw [if_pos room]
        exact run?_items (isDocument_array_iff.mp document) room rest
      · have deep : ¬stack.length + (Json.array items).depth ≤ maxDepth := by
          rw [depth, Value.ofJson, Value.depth]
          omega
        rw [if_neg room, if_neg deep]
  | .object entries, document, stack, within, rest => by
      have opened : run? ⟨.value, stack⟩ (.beginObject :: (entriesSymbols entries ++ rest)) =
          if stack.length < maxDepth then run? ⟨.firstKey, stack⟩ (entriesSymbols entries ++ rest)
          else none := run?_open rfl _
      rw [symbols, List.cons_append, opened]
      by_cases room : stack.length < maxDepth
      · obtain ⟨distinct, documents⟩ := isDocument_object_iff.mp document
        rw [if_pos room]
        exact run?_entries documents distinct room rest
      · have deep : ¬stack.length + (Json.object entries).depth ≤ maxDepth := by
          rw [depth, Value.ofJson, Value.depth]
          omega
        rw [if_neg room, if_neg deep]
termination_by structural json => json

theorem run?_items : ∀ {items : List Json}, (∀ v ∈ items, v.IsDocument) →
    ∀ {stack : List Container}, stack.length < maxDepth → ∀ rest : List Symbol,
      run? ⟨.firstItem, stack⟩ (itemsSymbols items ++ rest) =
        if stack.length + (itemsDepth items + 1) ≤ maxDepth then
          run? ⟨.after (.array items), stack⟩ rest
        else none
  | [], _, stack, room, rest => by
      have ended : run? ⟨.firstItem, stack⟩ (.endArray :: rest) =
          run? ⟨.after (.array []), stack⟩ rest := run?_cons_of_step rfl rest
      exact ended.trans (if_pos room).symm
  | item :: more, documents, stack, room, rest => by
      obtain ⟨first, others⟩ := List.forall_mem_cons.mp documents
      have deep : stack.length + (itemsDepth (item :: more) + 1) =
          stack.length + 1 + max item.depth (itemsDepth more) := by
        rw [itemsDepth_cons]
        omega
      have inside := run?_value first (.array [] :: stack) room
        (moreItemsSymbols more ++ rest)
      rw [itemsSymbols, List.append_assoc, run?_firstItem, inside, run?_moreItems others room, deep,
        ite_max_le]
      rfl
termination_by structural items => items

theorem run?_moreItems : ∀ {items : List Json}, (∀ v ∈ items, v.IsDocument) →
    ∀ {stack : List Container}, stack.length < maxDepth → ∀ (v : Json) (read : List Json)
      (rest : List Symbol),
      run? ⟨.after v, .array read :: stack⟩ (moreItemsSymbols items ++ rest) =
        if stack.length + 1 + itemsDepth items ≤ maxDepth then
          run? ⟨.after (.array ((v :: read).reverse ++ items)), stack⟩ rest
        else none
  | [], _, stack, room, v, read, rest => by
      have ended : run? ⟨.after v, .array read :: stack⟩ (.endArray :: rest) =
          run? ⟨.after (.array (v :: read).reverse), stack⟩ rest := run?_cons_of_step rfl rest
      rw [List.append_nil]
      exact ended.trans (if_pos room).symm
  | item :: more, documents, stack, room, v, read, rest => by
      obtain ⟨first, others⟩ := List.forall_mem_cons.mp documents
      have comma : step? ⟨.after v, .array read :: stack⟩ .comma =
          some ⟨.value, .array (v :: read) :: stack⟩ := rfl
      have turned : (item :: v :: read).reverse ++ more = (v :: read).reverse ++ item :: more := by
        rw [List.reverse_cons, List.append_assoc, List.singleton_append]
      have inside := run?_value first (.array (v :: read) :: stack) room
        (moreItemsSymbols more ++ rest)
      rw [moreItemsSymbols, List.cons_append, run?_cons_of_step comma, List.append_assoc, inside,
        run?_moreItems others room, itemsDepth_cons, ite_max_le, turned]
      rfl
termination_by structural items => items

theorem run?_entries : ∀ {entries : List (String × Json)},
    (∀ entry ∈ entries, entry.2.IsDocument) → (Entries.keys entries).Nodup →
    ∀ {stack : List Container}, stack.length < maxDepth → ∀ rest : List Symbol,
      run? ⟨.firstKey, stack⟩ (entriesSymbols entries ++ rest) =
        if stack.length + (entriesDepth entries + 1) ≤ maxDepth then
          run? ⟨.after (.object entries), stack⟩ rest
        else none
  | [], _, _, stack, room, rest => by
      have ended : run? ⟨.firstKey, stack⟩ (.endObject :: rest) =
          run? ⟨.after (.object []), stack⟩ rest := run?_cons_of_step rfl rest
      exact ended.trans (if_pos room).symm
  | (key, v) :: more, documents, distinct, stack, room, rest => by
      obtain ⟨first, others⟩ := List.forall_mem_cons.mp documents
      have named : step? ⟨.firstKey, stack⟩ (.scalar (.string key)) = some ⟨.colon [] key, stack⟩ :=
        rfl
      have colon : step? ⟨.colon [] key, stack⟩ .colon = some ⟨.value, .object [] key :: stack⟩ :=
        rfl
      have deep : stack.length + (entriesDepth ((key, v) :: more) + 1) =
          stack.length + 1 + max v.depth (entriesDepth more) := by
        rw [entriesDepth_cons]
        omega
      have inside := run?_value first (.object [] key :: stack) room
        (moreEntriesSymbols more ++ rest)
      rw [entriesSymbols, List.cons_append, List.cons_append, run?_cons_of_step named,
        run?_cons_of_step colon, List.append_assoc, inside,
        run?_moreEntries others [] distinct room, deep, ite_max_le]
      rfl
termination_by structural entries => entries

theorem run?_moreEntries : ∀ {entries : List (String × Json)},
    (∀ entry ∈ entries, entry.2.IsDocument) → ∀ (read : Entries Json) {key : String} {v : Json},
    (Entries.keys (read ++ (key, v) :: entries)).Nodup →
    ∀ {stack : List Container}, stack.length < maxDepth → ∀ rest : List Symbol,
      run? ⟨.after v, .object read key :: stack⟩ (moreEntriesSymbols entries ++ rest) =
        if stack.length + 1 + entriesDepth entries ≤ maxDepth then
          run? ⟨.after (.object (read ++ (key, v) :: entries)), stack⟩ rest
        else none
  | [], _, read, key, v, distinct, stack, room, rest => by
      have ended : run? ⟨.after v, .object read key :: stack⟩ (.endObject :: rest) =
          run? ⟨.after (.object (Entries.insert key v read)), stack⟩ rest :=
        run?_cons_of_step rfl rest
      rw [insert_eq_append distinct] at ended
      exact ended.trans (if_pos room).symm
  | (key', v') :: more, documents, read, key, v, distinct, stack, room, rest => by
      obtain ⟨first, others⟩ := List.forall_mem_cons.mp documents
      have comma : step? ⟨.after v, .object read key :: stack⟩ .comma =
          some ⟨.key (read ++ [(key, v)]), stack⟩ := by
        rw [← insert_eq_append distinct]
        rfl
      have named : step? ⟨.key (read ++ [(key, v)]), stack⟩ (.scalar (.string key')) =
          some ⟨.colon (read ++ [(key, v)]) key', stack⟩ := rfl
      have colon : step? ⟨.colon (read ++ [(key, v)]) key', stack⟩ .colon =
          some ⟨.value, .object (read ++ [(key, v)]) key' :: stack⟩ := rfl
      have regrouped : read ++ (key, v) :: (key', v') :: more =
          (read ++ [(key, v)]) ++ (key', v') :: more := by
        rw [List.append_assoc, List.singleton_append]
      rw [regrouped] at distinct ⊢
      have inside := run?_value first (.object (read ++ [(key, v)]) key' :: stack) room
        (moreEntriesSymbols more ++ rest)
      rw [moreEntriesSymbols, List.cons_append, List.cons_append, List.cons_append,
        run?_cons_of_step comma, run?_cons_of_step named, run?_cons_of_step colon,
        List.append_assoc, inside, run?_moreEntries others _ distinct room, entriesDepth_cons,
        ite_max_le]
      rfl
termination_by structural entries => entries

end

end Reader

/-- A text with the words of a document is read as this document, if that is not too deep. -/
theorem decode?_of_words {text : String} {json : Json} (document : json.IsDocument)
    (integral : json.IsIntegral) (printed : words text.toList = json.spelling) :
    decode? text = if json.depth ≤ Reader.maxDepth then some json else none := by
  have read := Reader.run?_value document [] (Nat.zero_le _) []
  rw [List.append_nil, List.length_nil, Nat.zero_add] at read
  rw [decode?, symbols?_eq, printed, spell_spelling integral, Option.bind_some, ofSymbols?,
    Reader.start, read]
  split_ifs <;> rfl

end Json

namespace Value

mutual

theorem isFinite_of_isDocument : ∀ {v : Value}, v.isDocument = true → v.isFinite = true
  | .null, _ | .bool _, _ | .int _, _ | .string _, _ => rfl
  | .float _, document => document
  | .array _, document => listIsFinite_of_listIsDocument document
  | .object _, document => by
      rw [isDocument, Bool.and_eq_true] at document
      exact entriesAreFinite_of_entriesAreDocuments document.2

theorem listIsFinite_of_listIsDocument : ∀ {items : List Value}, listIsDocument items = true →
    listIsFinite items = true
  | [], _ => rfl
  | v :: rest, documents => by
      rw [listIsDocument, Bool.and_eq_true] at documents
      rw [listIsFinite, isFinite_of_isDocument documents.1,
        listIsFinite_of_listIsDocument documents.2, Bool.and_self]

theorem entriesAreFinite_of_entriesAreDocuments : ∀ {entries : Entries Value},
    entriesAreDocuments entries = true → entriesAreFinite entries = true
  | [], _ => rfl
  | (_, v) :: rest, documents => by
      rw [entriesAreDocuments, Bool.and_eq_true] at documents
      rw [entriesAreFinite, isFinite_of_isDocument documents.1,
        entriesAreFinite_of_entriesAreDocuments documents.2, Bool.and_self]

end

theorem decode?_of_words {text : String} {v : Value} (document : v.isDocument = true)
    (integral : v.isIntegral = true) (printed : Json.words text.toList = v.toJson.spelling) :
    decode? text = if v.depth ≤ Json.Reader.maxDepth then some v else none := by
  have back : ofJson v.toJson = v :=
    ofJson_toJson (isPlain_of_isDocument document) (isFinite_of_isDocument document)
  have tree : v.toJson.IsDocument := by rwa [Json.IsDocument, back]
  have numbers : v.toJson.IsIntegral := by rwa [Json.IsIntegral, back]
  have deep : v.toJson.depth = v.depth := by rw [Json.depth, back]
  rw [decode?, Json.decode?_of_words tree numbers printed, deep]
  split_ifs
  · exact congrArg some back
  · rfl

/-- A document whose numbers are integers is read back from its text, compact or indented, with
every part and the order of keys, if at most one hundred and twenty-seven arrays and objects are
inside of each other.  With more of them its text is not read. -/
theorem json_round_trip {v : Value} (document : v.isDocument = true)
    (integral : v.isIntegral = true) :
    (v.depth ≤ 127 → decode? v.encode = some v ∧ decode? v.toJson.encodeIndented = some v) ∧
      (127 < v.depth → decode? v.encode = none ∧ decode? v.toJson.encodeIndented = none) := by
  have compact := decode?_of_words document integral (Json.words_encode v.toJson)
  have indented := decode?_of_words document integral (Json.words_encodeIndented v.toJson)
  constructor
  · intro shallow
    exact ⟨compact.trans (if_pos shallow), indented.trans (if_pos shallow)⟩
  · intro deep
    have beyond : ¬v.depth ≤ Json.Reader.maxDepth := Nat.not_le_of_lt deep
    exact ⟨compact.trans (if_neg beyond), indented.trans (if_neg beyond)⟩

theorem json_round_trip_bounds :
    let v : Value := .object [("\"\n", .int (-9223372036854775808)),
      ("", .array [.int 9223372036854775807, .string "\\u0000", .object []])]
    let deep : Value := (fun inner => .array [inner])^[128] .null
    v.isDocument = true ∧ v.isIntegral = true ∧ v.depth ≤ 127 ∧
      decode? v.encode = some v ∧ decode? v.toJson.encodeIndented = some v ∧
      deep.isDocument = true ∧ deep.isIntegral = true ∧ 127 < deep.depth ∧
      decode? deep.encode = none ∧ decode? deep.toJson.encodeIndented = none := by
  intro v deep
  have document : v.isDocument = true := by decide
  have integral : v.isIntegral = true := by decide
  have shallow : v.depth ≤ 127 := by decide
  have document' : deep.isDocument = true := by decide +kernel
  have integral' : deep.isIntegral = true := by decide +kernel
  have tooDeep : 127 < deep.depth := by decide +kernel
  obtain ⟨read, readIndented⟩ := (json_round_trip document integral).1 shallow
  obtain ⟨unread, unreadIndented⟩ := (json_round_trip document' integral').2 tooDeep
  exact ⟨document, integral, shallow, read, readIndented, document', integral', tooDeep, unread,
    unreadIndented⟩

end Value

end JsonQuery
