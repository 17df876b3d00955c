import JsonQuery.Proofs.Coupling.Plain
import JsonQuery.Proofs.Number.Quotient
import Mathlib

/-!
# Documents

A document is a value without references, with finite numbers only, and with no key twice in one
object.  Whatever is decoded from JSON text is a document: numbers that would not be finite are
refused, and a repeated key replaces what it had before.
-/

set_option autoImplicit false

namespace JsonQuery

namespace Value

mutual

/-- No references, finite numbers and distinct keys, at every depth. -/
def isDocument : Value → Bool
  | .null | .bool _ | .int _ | .string _ => true
  | .float x => Binary64.isFinite x
  | .array items => listIsDocument items
  | .object entries => decide (Entries.keys entries).Nodup && entriesAreDocuments entries
  | .reference _ _ => false
termination_by structural v => v

def listIsDocument : List Value → Bool
  | [] => true
  | v :: rest => isDocument v && listIsDocument rest
termination_by structural items => items

def entriesAreDocuments : List (String × Value) → Bool
  | [] => true
  | (_, v) :: rest => isDocument v && entriesAreDocuments rest
termination_by structural entries => entries

end

mutual

theorem isPlain_of_isDocument : ∀ {v : Value}, v.isDocument = true → v.isPlain = true
  | .null, _ | .bool _, _ | .int _, _ | .float _, _ | .string _, _ => rfl
  | .array _, document => listIsPlain_of_listIsDocument document
  | .object _, document => by
      rw [isDocument, Bool.and_eq_true] at document
      exact entriesArePlain_of_entriesAreDocuments document.2

theorem listIsPlain_of_listIsDocument : ∀ {items : List Value}, listIsDocument items = true →
    listIsPlain items = true
  | [], _ => rfl
  | v :: rest, documents => by
      rw [listIsDocument, Bool.and_eq_true] at documents
      rw [listIsPlain, isPlain_of_isDocument documents.1,
        listIsPlain_of_listIsDocument documents.2, Bool.and_self]

theorem entriesArePlain_of_entriesAreDocuments : ∀ {entries : Entries Value},
    entriesAreDocuments entries = true → entriesArePlain entries = true
  | [], _ => rfl
  | (_, v) :: rest, documents => by
      rw [entriesAreDocuments, Bool.and_eq_true] at documents
      rw [entriesArePlain, isPlain_of_isDocument documents.1,
        entriesArePlain_of_entriesAreDocuments documents.2, Bool.and_self]

end

end Value

namespace Entries

theorem mem_of_mem_insert {α : Type} {key : String} {value : α} {entries : Entries α}
    {entry : String × α} (found : entry ∈ insert key value entries) :
    entry = (key, value) ∨ entry ∈ entries := by
  induction entries with
  | nil => exact .inl (List.mem_singleton.mp found)
  | cons first rest ih =>
      obtain ⟨k, v⟩ := first
      rw [insert] at found
      split at found
      · rename_i same
        subst same
        exact (List.mem_cons.mp found).imp_right (List.mem_cons_of_mem _)
      · obtain rfl | later := List.mem_cons.mp found
        · exact .inr List.mem_cons_self
        · exact (ih later).imp_right (List.mem_cons_of_mem _)

end Entries

/-- The value of the JSON tree is a document. -/
def Json.IsDocument (json : Json) : Prop :=
  (Value.ofJson json).isDocument = true

/-! ## Numbers -/

namespace Json

open Binary64

theorem isFinite_ofNat {n : Nat} (le : n ≤ tenPow 308) : isFinite (ofNat n) = true := by
  have largest : nearestMagnitude (tenPow 308) 1 < infinity := by decide +kernel
  rw [isFinite, decide_eq_true_eq, ofNat, magnitude_ofMagnitude (nearestMagnitude_le n)]
  exact Nat.lt_of_le_of_lt (nearestMagnitude_mono le) largest

theorem isFinite_ofNat_of_word {n : Nat} (lt : n < twoPow 64) : isFinite (ofNat n) = true := by
  have word : twoPow 64 ≤ tenPow 20 := by decide
  have wide : tenPow 20 ≤ tenPow 308 := tenPow_mono (by decide)
  exact isFinite_ofNat (by omega)

theorem isFinite_div_tenPower {f : Float} {e : Nat} (finite : isFinite f = true) (positive : 0 < e)
    (le : e ≤ 308) : isFinite (f / tenPower e) = true := by
  refine isFinite_div finite (isFinite_ofNat (tenPow_mono le)) ?_
  have least : 1024 * 2 ^ 52 ≤ nearestMagnitude (tenPow 1) 1 := by decide +kernel
  rw [tenPower, ofNat, magnitude_ofMagnitude (nearestMagnitude_le _)]
  exact least.trans (nearestMagnitude_mono (tenPow_mono positive))

/-- Scaling down divides by powers from ten on, and scaling up is checked. -/
theorem isFinite_scale? {f g : Float} {e : Int} (finite : isFinite f = true)
    (scaled : scale? f e = some g) : isFinite g = true := by
  fun_induction scale? f e with
  | case1 f e unchanged =>
      cases scaled
      exact finite
  | case2 f e _ tooLarge => cases scaled
  | case3 f e _ _ far ih => exact ih (isFinite_div_tenPower finite (by decide) (by decide)) scaled
  | case4 f e _ _ _ _ product inside => exact Option.some.inj scaled ▸ inside
  | case5 f e _ _ _ _ product outside => cases scaled
  | case6 f e _ notTooLarge notFar negative =>
      cases scaled
      exact isFinite_div_tenPower finite (by omega) (by omega)

theorem accumulate_lt {significand : Nat} (lt : significand < twoPow 64) (taken : Nat)
    (digits : List Char) : (accumulate significand taken digits).significand < twoPow 64 := by
  fun_induction accumulate significand taken digits with
  | case1 => exact lt
  | case2 significand taken d ds fits ih => exact ih fits
  | case3 => exact lt

theorem isFinite_withSign {f : Float} (finite : isFinite f = true) (negative : Bool) :
    isFinite (withSign negative f) = true := by
  cases negative with
  | false => exact finite
  | true => exact isFinite_neg finite

theorem isFinite_scaledNumber? {negative : Bool} {significand : Nat} {shift : Int}
    {exponent : Option (Bool × List Char)} {g : Float} (lt : significand < twoPow 64)
    (scaled : scaledNumber? negative significand shift exponent = some g) :
    isFinite g = true := by
  have bySign {e : Int}
      (signed : (scale? (ofNat significand) e).map (withSign negative) = some g) :
      isFinite g = true := by
    obtain ⟨f, read, rfl⟩ := Option.map_eq_some_iff.mp signed
    exact isFinite_withSign (isFinite_scale? (isFinite_ofNat_of_word lt) read) negative
  cases exponent with
  | none => exact bySign scaled
  | some written =>
      obtain ⟨down, ds⟩ := written
      simp only [scaledNumber?] at scaled
      split at scaled
      · split at scaled
        · cases scaled
        · cases scaled
          exact isFinite_withSign (isFinite_ofNat_of_word (by decide)) negative
      · exact bySign scaled

theorem isDocument_whole {significand : Nat} (lt : significand < twoPow 64) (negative : Bool) :
    (whole negative significand).IsDocument := by
  have finite := isFinite_ofNat_of_word lt
  unfold whole
  split
  · split
    · exact isFinite_neg finite
    · rfl
  · split
    · rfl
    · exact finite

theorem isDocument_number? {text : List Char} {json : Json} (read : number? text = some json) :
    json.IsDocument := by
  simp only [number?] at read
  split at read
  · cases read
  · rename_i parts _
    have left := accumulate_lt (show 0 < twoPow 64 by decide) 0 parts.whole
    have right := accumulate_lt left 0 (parts.fraction.getD [])
    split at read
    · split at read
      · cases read
        exact isDocument_whole left _
      · obtain ⟨x, scaled, rfl⟩ := Option.map_eq_some_iff.mp read
        exact isFinite_scaledNumber? right scaled
    · cases read

/-! ## Symbols -/

theorem isDocument_ofSpelling? {spelling : List Char} {json : Json}
    (read : Symbol.ofSpelling? spelling = some (.scalar json)) :
    json.IsDocument := by
  unfold Symbol.ofSpelling? at read
  split at read
  case h_7 | h_8 | h_9 =>
    cases read
    rfl
  case h_10 =>
    obtain ⟨s, -, same⟩ := Option.map_eq_some_iff.mp read
    cases same
    rfl
  case h_11 =>
    obtain ⟨number, found, same⟩ := Option.map_eq_some_iff.mp read
    cases same
    exact isDocument_number? found
  all_goals cases read

/-- Every scalar among the symbols is a document. -/
def AreDocuments (symbols : List Symbol) : Prop :=
  ∀ json, .scalar json ∈ symbols → json.IsDocument

theorem areDocuments_symbols? {text : List Char} {symbols : List Symbol}
    (read : symbols? text = some symbols) : AreDocuments symbols := by
  fun_induction symbols? text generalizing symbols with
  | case1 =>
      cases read
      intro json found
      cases found
  | case2 c rest blank ih => exact ih read
  | case3 c rest _ _ => cases read
  | case4 c rest _ n symbol spelled =>
      rename_i ih
      obtain ⟨others, readOthers, rfl⟩ := Option.map_eq_some_iff.mp read
      intro json found
      obtain rfl | later := List.mem_cons.mp found
      · exact isDocument_ofSpelling? spelled
      · exact ih readOthers json later

/-! ## Trees -/

theorem isDocument_array_iff {items : List Json} :
    (Json.array items).IsDocument ↔ ∀ v ∈ items, v.IsDocument := by
  simp only [IsDocument, Value.ofJson, Value.isDocument]
  induction items with
  | nil => simp [Value.ofJsonList, Value.listIsDocument]
  | cons v rest ih => simp [Value.ofJsonList, Value.listIsDocument, ih]

theorem isDocument_object_iff {entries : Entries Json} :
    (Json.object entries).IsDocument ↔
      (Entries.keys entries).Nodup ∧ ∀ entry ∈ entries, entry.2.IsDocument := by
  have keys : Entries.keys (Value.ofJsonEntries entries) = Entries.keys entries := by
    induction entries with
    | nil => rfl
    | cons entry rest ih =>
        simp only [Entries.keys] at ih
        simp only [Value.ofJsonEntries, Entries.keys, List.map_cons, ih]
  have values : Value.entriesAreDocuments (Value.ofJsonEntries entries) = true ↔
      ∀ entry ∈ entries, entry.2.IsDocument := by
    clear keys
    induction entries with
    | nil => simp [Value.ofJsonEntries, Value.entriesAreDocuments]
    | cons entry rest ih => simp [Value.ofJsonEntries, Value.entriesAreDocuments, ih, IsDocument]
  rw [IsDocument, Value.ofJson, Value.isDocument, Bool.and_eq_true, decide_eq_true_eq, keys, values]

theorem IsDocument.insert {entries : Entries Json} {key : String} {v : Json}
    (object : (Json.object entries).IsDocument) (value : v.IsDocument) :
    (Json.object (Entries.insert key v entries)).IsDocument := by
  rw [isDocument_object_iff] at object ⊢
  refine ⟨Entries.nodup_keys_insert object.1, fun entry found => ?_⟩
  obtain rfl | old := Entries.mem_of_mem_insert found
  · exact value
  · exact object.2 entry old

/-! ## The reader -/

/-- What is kept of an open array or object is a document. -/
def Container.Holds : Container → Prop
  | .array items => ∀ v ∈ items, v.IsDocument
  | .object entries _ => (Json.object entries).IsDocument

def Expectation.Holds : Expectation → Prop
  | .value | .firstItem | .firstKey => True
  | .key entries | .colon entries _ => (Json.object entries).IsDocument
  | .after v => v.IsDocument

structure Reader.Holds (reader : Reader) : Prop where
  expects : reader.expects.Holds
  stack : ∀ container ∈ reader.stack, container.Holds

namespace Reader

variable {reader next : Reader} {stack : List Container} {symbol : Symbol}

theorem holds_open? {expects : Expectation} (fresh : expects.Holds)
    (held : ∀ container ∈ stack, container.Holds) (opened : open? expects stack = some next) :
    next.Holds := by
  unfold open? at opened
  split at opened
  · cases opened
    exact ⟨fresh, held⟩
  · cases opened

theorem holds_stepValue? (held : ∀ container ∈ stack, container.Holds)
    (scalar : ∀ json, symbol = .scalar json → json.IsDocument)
    (step : stepValue? stack symbol = some next) : next.Holds := by
  cases symbol with
  | scalar json =>
      cases step
      exact ⟨scalar json rfl, held⟩
  | beginArray => exact holds_open? (show Expectation.firstItem.Holds from trivial) held step
  | beginObject => exact holds_open? (show Expectation.firstKey.Holds from trivial) held step
  | _ => cases step

theorem holds_stepKey? {entries : Entries Json} (object : (Json.object entries).IsDocument)
    (held : ∀ container ∈ stack, container.Holds)
    (step : stepKey? entries stack symbol = some next) : next.Holds := by
  unfold stepKey? at step
  split at step
  · cases step
    exact ⟨object, held⟩
  · cases step

theorem holds_stepAfter? {v : Json} (value : v.IsDocument)
    (held : ∀ container ∈ stack, container.Holds) (step : stepAfter? v stack symbol = some next) :
    next.Holds := by
  unfold stepAfter? at step
  split at step
  · rename_i items outer
    cases step
    refine ⟨trivial, fun container found => ?_⟩
    obtain rfl | later := List.mem_cons.mp found
    · intro item member
      obtain rfl | old := List.mem_cons.mp member
      · exact value
      · exact held _ List.mem_cons_self item old
    · exact held container (List.mem_cons_of_mem _ later)
  · rename_i items outer
    cases step
    refine ⟨isDocument_array_iff.mpr fun item member => ?_, fun container later =>
      held container (List.mem_cons_of_mem _ later)⟩
    obtain rfl | old := List.mem_cons.mp (List.mem_reverse.mp member)
    · exact value
    · exact held _ List.mem_cons_self item old
  · rename_i entries key outer
    cases step
    have object : (Json.object entries).IsDocument := held _ List.mem_cons_self
    exact ⟨object.insert value, fun container later =>
      held container (List.mem_cons_of_mem _ later)⟩
  · rename_i entries key outer
    cases step
    have object : (Json.object entries).IsDocument := held _ List.mem_cons_self
    exact ⟨object.insert value, fun container later =>
      held container (List.mem_cons_of_mem _ later)⟩
  · cases step

theorem Holds.step? (holds : reader.Holds)
    (scalar : ∀ json, symbol = .scalar json → json.IsDocument)
    (step : reader.step? symbol = some next) : next.Holds := by
  obtain ⟨expects, stack⟩ := reader
  obtain ⟨expected, held⟩ := holds
  have empty : (Json.object []).IsDocument := isDocument_object_iff.mpr ⟨List.nodup_nil, nofun⟩
  simp only [Reader.step?] at step
  split at step
  · exact holds_stepValue? held scalar step
  · cases step
    exact ⟨isDocument_array_iff.mpr nofun, held⟩
  · refine holds_stepValue? (fun container found => ?_) scalar step
    obtain rfl | old := List.mem_cons.mp found
    · exact nofun
    · exact held container old
  · cases step
    exact ⟨empty, held⟩
  · exact holds_stepKey? empty held step
  · exact holds_stepKey? expected held step
  · cases step
    refine ⟨trivial, fun container found => ?_⟩
    obtain rfl | old := List.mem_cons.mp found
    · exact expected
    · exact held container old
  · cases step
  · exact holds_stepAfter? expected held step

theorem Holds.run? (holds : reader.Holds) {symbols : List Symbol} (scalars : AreDocuments symbols)
    (run : reader.run? symbols = some next) : next.Holds := by
  induction symbols generalizing reader with
  | nil =>
      cases run
      exact holds
  | cons symbol rest ih =>
      unfold Reader.run? at run
      split at run
      · cases run
      · rename_i following step
        have holds' := holds.step? (fun json same => scalars json (same ▸ List.mem_cons_self)) step
        exact ih holds' (fun json found => scalars json (List.mem_cons_of_mem _ found)) run

end Reader

theorem isDocument_of_decode? {text : String} {json : Json} (decoded : decode? text = some json) :
    json.IsDocument := by
  obtain ⟨symbols, read, assembled⟩ := Option.bind_eq_some_iff.mp decoded
  obtain ⟨reader, run, result⟩ := Option.bind_eq_some_iff.mp assembled
  have start : Reader.start.Holds := ⟨trivial, nofun⟩
  have holds := start.run? (areDocuments_symbols? read) run
  unfold Reader.result? at result
  split at result
  · cases result
    exact holds.expects
  · cases result

end Json

/-- Whatever is decoded from JSON text is a document. -/
theorem Value.isDocument_of_decode? {text : String} {v : Value} (decoded : decode? text = some v) :
    v.isDocument = true := by
  obtain ⟨json, read, rfl⟩ := Option.map_eq_some_iff.mp decoded
  exact Json.isDocument_of_decode? read

end JsonQuery
