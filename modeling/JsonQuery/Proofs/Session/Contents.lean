import JsonQuery.Proofs.Session.History
import Mathlib

/-!
# What a table of expressions holds

After any run of parses and clearings the table holds the texts that were read since it was last
emptied, with what the parser makes of them, and nothing else.  It is emptied on demand, and before
a new expression is stored when it is past its capacity; a text that it holds, or that cannot be
read, never changes it.
-/

set_option autoImplicit false

namespace JsonQuery

namespace Cache

variable {cache : Cache} {text : String} {query : Query}

/-- The table answers by itself, whatever a parser would say. -/
def Serves (cache : Cache) (text : String) : Prop :=
  ∃ answer, ∀ read, (cache.parseWith read text).1 = answer

theorem serves_iff : cache.Serves text ↔ text ∈ Entries.keys cache.table := by
  constructor
  · rintro ⟨answer, independent⟩
    by_contra absent
    have missed : cache.get? text = none := Entries.get?_eq_none_iff.mpr absent
    have byOne : .error .zeroStep = answer := by
      simpa [parseWith, missed] using independent fun _ => .error .zeroStep
    have byOther : .ok .current = answer := by
      simpa [parseWith, missed] using independent fun _ => .ok .current
    cases byOne.trans byOther.symm
  · intro held
    cases found : cache.get? text with
    | none => exact absurd held (Entries.get?_eq_none_iff.mp found)
    | some query => exact ⟨.ok query, fun read => by simp [parseWith, found]⟩

theorem parse_of_mem (held : text ∈ Entries.keys cache.table) : (cache.parse text).2 = cache := by
  cases found : cache.get? text with
  | none => exact absurd held (Entries.get?_eq_none_iff.mp found)
  | some query => simp [Cache.parse, parseWith, found]

theorem parse_of_error {e : Error} (refused : cache.parser.parse text = .error e) :
    (cache.parse text).2 = cache := by
  cases found : cache.get? text with
  | some query => simp [Cache.parse, parseWith, found]
  | none => simp [Cache.parse, parseWith, found, refused]

end Cache

/-- What can be asked of a table. -/
inductive Operation where
  | parse (text : String)
  | clear
  deriving DecidableEq, Repr

namespace Cache

variable {cache : Cache} {text : String} {query : Query} {op : Operation}

def perform (cache : Cache) : Operation → Cache
  | .parse text => (cache.parse text).2
  | .clear => cache.clear

/-- The operation empties the table, before it stores a new expression if it is a parse. -/
def Resets (cache : Cache) : Operation → Prop
  | .parse text =>
      text ∉ Entries.keys cache.table ∧ cache.capacity < cache.size ∧
        ∃ query, cache.parser.parse text = .ok query
  | .clear => True

/-- What an operation does, by the text and what the parser makes of it. -/
theorem perform_cases (cache : Cache) (op : Operation) :
    op = .clear ∨
      (∃ text, op = .parse text ∧ text ∈ Entries.keys cache.table ∧ cache.perform op = cache) ∨
      (∃ text e, op = .parse text ∧ text ∉ Entries.keys cache.table ∧
        cache.parser.parse text = .error e ∧ cache.perform op = cache) ∨
      ∃ text query, op = .parse text ∧ text ∉ Entries.keys cache.table ∧
        cache.parser.parse text = .ok query ∧ cache.perform op = cache.insert text query := by
  cases op with
  | clear => exact .inl rfl
  | parse text =>
      by_cases held : text ∈ Entries.keys cache.table
      · exact .inr (.inl ⟨text, rfl, held, parse_of_mem held⟩)
      · have missed : cache.get? text = none := Entries.get?_eq_none_iff.mpr held
        cases read : cache.parser.parse text with
        | error e => exact .inr (.inr (.inl ⟨text, e, rfl, held, read, parse_of_error read⟩))
        | ok query =>
            refine .inr (.inr (.inr ⟨text, query, rfl, held, read, ?_⟩))
            simp [perform, Cache.parse, parseWith, missed, read]

structure Lawful (parser : Parser) (capacity : Nat) (cache : Cache) : Prop where
  parser_eq : cache.parser = parser
  capacity_eq : cache.capacity = capacity
  sound : cache.Sound
  nodup : (Entries.keys cache.table).Nodup
  size_le : cache.size ≤ capacity + 1

variable {parser : Parser} {capacity : Nat}

theorem lawful_empty : (empty parser capacity).Lawful parser capacity :=
  ⟨rfl, rfl, sound_empty parser capacity, List.nodup_nil, Nat.zero_le _⟩

theorem table_insert (absent : text ∉ Entries.keys cache.table) :
    (cache.insert text query).table =
      (if cache.capacity < cache.size then [] else cache.table) ++ [(text, query)] := by
  apply Entries.insert_of_notMem
  split
  · exact List.not_mem_nil
  · exact absent

theorem Lawful.clear (lawful : cache.Lawful parser capacity) :
    cache.clear.Lawful parser capacity :=
  ⟨lawful.parser_eq, lawful.capacity_eq, sound_empty cache.parser cache.capacity, List.nodup_nil,
    Nat.zero_le _⟩

theorem Lawful.insert (lawful : cache.Lawful parser capacity)
    (absent : text ∉ Entries.keys cache.table) (read : cache.parser.parse text = .ok query) :
    (cache.insert text query).Lawful parser capacity := by
  obtain ⟨own, limit, sound, nodup, size_le⟩ := lawful
  refine ⟨own, limit, sound.insert read, ?_, ?_⟩
  · apply Entries.nodup_keys_insert
    split
    · exact List.nodup_nil
    · exact nodup
  · rw [size, table_insert absent, List.length_append, List.length_singleton]
    by_cases full : cache.capacity < cache.size
    · rw [if_pos full]
      exact Nat.le_add_left 1 capacity
    · rw [if_neg full]
      have within : cache.table.length ≤ cache.capacity := Nat.le_of_not_lt full
      omega

theorem Lawful.perform (lawful : cache.Lawful parser capacity) (op : Operation) :
    (cache.perform op).Lawful parser capacity := by
  rcases cache.perform_cases op with rfl | ⟨text, -, -, same⟩ | ⟨text, e, -, -, -, same⟩ |
    ⟨text, query, -, absent, read, stored⟩
  · exact lawful.clear
  · rwa [same]
  · rwa [same]
  · rw [stored]
    exact lawful.insert absent read

/-- An operation adds the text that it parses, and keeps the rest unless it empties the table. -/
theorem Lawful.mem_perform (lawful : cache.Lawful parser capacity) (op : Operation) :
    (text, query) ∈ (cache.perform op).table ↔
      op = .parse text ∧ parser.parse text = .ok query ∨
        (text, query) ∈ cache.table ∧ ¬ cache.Resets op := by
  obtain ⟨rfl, rfl, sound, nodup, -⟩ := lawful
  rcases cache.perform_cases op with rfl | ⟨other, rfl, held, same⟩ |
    ⟨other, e, rfl, absent, refused, same⟩ | ⟨other, found, rfl, absent, read, stored⟩
  · simp [Cache.perform, Cache.clear, Resets]
  · rw [same]
    have kept : ¬ cache.Resets (.parse other) := fun resets => resets.1 held
    refine ⟨fun present => .inr ⟨present, kept⟩, ?_⟩
    rintro (⟨⟨⟩, read⟩ | ⟨present, -⟩)
    · -- the entry that is there is what the parser reads
      obtain ⟨⟨text', found⟩, present, rfl⟩ := List.mem_map.mp held
      have agrees := sound text' found ((Entries.get?_eq_some_iff nodup).mpr present)
      rw [read, Except.ok.injEq] at agrees
      rwa [agrees]
    · exact present
  · rw [same]
    have kept : ¬ cache.Resets (.parse other) := by
      rintro ⟨-, -, found, read⟩
      cases refused.symm.trans read
    refine ⟨fun present => .inr ⟨present, kept⟩, ?_⟩
    rintro (⟨⟨⟩, read⟩ | ⟨present, -⟩)
    · cases refused.symm.trans read
    · exact present
  · have resets : cache.Resets (.parse other) ↔ cache.capacity < cache.size :=
      ⟨fun resets => resets.2.1, fun full => ⟨absent, full, found, read⟩⟩
    rw [stored, table_insert absent, List.mem_append, List.mem_singleton, resets, or_comm]
    refine or_congr ⟨?_, ?_⟩ ?_
    · rintro ⟨⟩
      exact ⟨rfl, read⟩
    · rintro ⟨⟨⟩, read'⟩
      rw [read, Except.ok.injEq] at read'
      rw [read']
    · by_cases full : cache.capacity < cache.size
      · simp [full]
      · simp [full]

/-! ## Runs -/

/-- The table that a run leaves, having started with an empty one. -/
def after (parser : Parser) (capacity : Nat) (ops : List Operation) : Cache :=
  ops.foldl perform (empty parser capacity)

/-- The run parses the text, and nothing it does later empties the table. -/
def IsRecent (parser : Parser) (capacity : Nat) (ops : List Operation) (text : String) : Prop :=
  ∃ j, ops[j]? = some (.parse text) ∧
    ∀ i op, j < i → ops[i]? = some op → ¬ (after parser capacity (ops.take i)).Resets op

variable {ops : List Operation}

theorem after_append (op : Operation) :
    after parser capacity (ops ++ [op]) = (after parser capacity ops).perform op := by
  rw [after, List.foldl_append]
  rfl

theorem lawful_after (ops : List Operation) :
    (after parser capacity ops).Lawful parser capacity := by
  induction ops using List.reverseRecOn with
  | nil => exact lawful_empty
  | append_singleton ops op ih =>
      rw [after_append]
      exact ih.perform op

theorem isRecent_append (op : Operation) :
    IsRecent parser capacity (ops ++ [op]) text ↔
      op = .parse text ∨
        IsRecent parser capacity ops text ∧ ¬ (after parser capacity ops).Resets op := by
  have last : (ops ++ [op])[ops.length]? = some op := by simp
  constructor
  · rintro ⟨j, parsed, kept⟩
    have inside : j < (ops ++ [op]).length := (List.getElem?_eq_some_iff.mp parsed).1
    rw [List.length_append, List.length_singleton] at inside
    by_cases new : j = ops.length
    · rw [new, last, Option.some_inj] at parsed
      exact .inl parsed
    · have old : j < ops.length := by omega
      refine .inr ⟨⟨j, by rwa [List.getElem?_append_left old] at parsed, ?_⟩, ?_⟩
      · intro i op' later found
        have within : i < ops.length := (List.getElem?_eq_some_iff.mp found).1
        have := kept i op' later (by rwa [List.getElem?_append_left within])
        rwa [List.take_append_of_le_length within.le] at this
      · have := kept ops.length op old last
        rwa [List.take_left] at this
  · rintro (rfl | ⟨⟨j, parsed, kept⟩, unspent⟩)
    · refine ⟨ops.length, last, fun i op' later found => ?_⟩
      have inside := (List.getElem?_eq_some_iff.mp found).1
      rw [List.length_append, List.length_singleton] at inside
      omega
    · have old : j < ops.length := (List.getElem?_eq_some_iff.mp parsed).1
      refine ⟨j, by rwa [List.getElem?_append_left old], fun i op' later found => ?_⟩
      have inside := (List.getElem?_eq_some_iff.mp found).1
      rw [List.length_append, List.length_singleton] at inside
      by_cases new : i = ops.length
      · subst new
        rw [last, Option.some_inj] at found
        rwa [List.take_left, ← found]
      · have within : i < ops.length := by omega
        rw [List.getElem?_append_left within] at found
        rw [List.take_append_of_le_length within.le]
        exact kept i op' later found

theorem mem_after (ops : List Operation) :
    (text, query) ∈ (after parser capacity ops).table ↔
      parser.parse text = .ok query ∧ IsRecent parser capacity ops text := by
  induction ops using List.reverseRecOn with
  | nil => simp [after, empty, IsRecent]
  | append_singleton ops op ih =>
      rw [after_append, (lawful_after ops).mem_perform, ih, isRecent_append]
      tauto

/-- After any run the table holds exactly the texts parsed with success since it was last emptied,
each once, with what the parser makes of it, and never more than one text beyond its capacity.  It
answers for the parser exactly on the texts it holds, and a parse changes it only to store a text
that it does not hold and that can be read. -/
theorem contents_after (parser : Parser) (capacity : Nat) (ops : List Operation) :
    (Entries.keys (after parser capacity ops).table).Nodup ∧
      (∀ text query, (text, query) ∈ (after parser capacity ops).table ↔
        parser.parse text = .ok query ∧ IsRecent parser capacity ops text) ∧
      (after parser capacity ops).size ≤ capacity + 1 ∧
      ∀ text,
        ((after parser capacity ops).parse text).1 = parser.parse text ∧
        ((after parser capacity ops).Serves text ↔
          text ∈ Entries.keys (after parser capacity ops).table) ∧
        ((after parser capacity ops).Serves text ∨ (∃ e, parser.parse text = .error e) →
          ((after parser capacity ops).parse text).2 = after parser capacity ops) := by
  have lawful : (after parser capacity ops).Lawful parser capacity := lawful_after ops
  obtain ⟨own, -, sound, nodup, size_le⟩ := lawful
  refine ⟨nodup, fun text query => mem_after ops, size_le, fun text => ⟨?_, serves_iff, ?_⟩⟩
  · rw [(sound.parse text).1, own]
  · rintro (served | ⟨e, refused⟩)
    · exact parse_of_mem (serves_iff.mp served)
    · exact parse_of_error (own ▸ refused)

end Cache

end JsonQuery
