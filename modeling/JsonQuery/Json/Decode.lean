import JsonQuery.Json.Symbol

/-!
# Decoding JSON text

The reader takes one symbol at a time and keeps the arrays and objects that are still open on a
stack.  It accepts strict JSON with at most one hundred and twenty-seven open arrays and objects;
of a repeated key the first place and the last value stay.
-/

set_option autoImplicit false

namespace JsonQuery.Json

/-- An array or object that is still open.  The items of an array are held latest first; an object
waits for the value of a key. -/
inductive Container where
  | array (items : List Json)
  | object (entries : Entries Json) (key : String)

inductive Expectation where
  /-- A value starts. -/
  | value
  /-- An array has been opened: a value starts, or the array ends. -/
  | firstItem
  /-- An object has been opened: a key follows, or the object ends. -/
  | firstKey
  /-- A key follows. -/
  | key (entries : Entries Json)
  /-- A colon follows the key. -/
  | colon (entries : Entries Json) (key : String)
  /-- A value has been read. -/
  | after (value : Json)

structure Reader where
  expects : Expectation
  stack : List Container

namespace Reader

/-- So many arrays and objects may be open at a time. -/
def maxDepth : Nat :=
  127

def start : Reader :=
  ⟨.value, []⟩

/-- Opens an array or object inside those on the stack. -/
def open? (expects : Expectation) (stack : List Container) : Option Reader :=
  if stack.length < maxDepth then some ⟨expects, stack⟩ else none

def stepValue? (stack : List Container) : Symbol → Option Reader
  | .scalar v => some ⟨.after v, stack⟩
  | .beginArray => open? .firstItem stack
  | .beginObject => open? .firstKey stack
  | _ => none

/-- Reads a key behind the given entries. -/
def stepKey? (entries : Entries Json) (stack : List Container) : Symbol → Option Reader
  | .scalar (.string key) => some ⟨.colon entries key, stack⟩
  | _ => none

def stepAfter? (v : Json) : List Container → Symbol → Option Reader
  | .array items :: outer, .comma => some ⟨.value, .array (v :: items) :: outer⟩
  | .array items :: outer, .endArray => some ⟨.after (.array (v :: items).reverse), outer⟩
  | .object entries key :: outer, .comma => some ⟨.key (Entries.insert key v entries), outer⟩
  | .object entries key :: outer, .endObject =>
      some ⟨.after (.object (Entries.insert key v entries)), outer⟩
  | _, _ => none

def step? (reader : Reader) (symbol : Symbol) : Option Reader :=
  match reader.expects, symbol with
  | .value, _ => stepValue? reader.stack symbol
  | .firstItem, .endArray => some ⟨.after (.array []), reader.stack⟩
  | .firstItem, _ => stepValue? (.array [] :: reader.stack) symbol
  | .firstKey, .endObject => some ⟨.after (.object []), reader.stack⟩
  | .firstKey, _ => stepKey? [] reader.stack symbol
  | .key entries, _ => stepKey? entries reader.stack symbol
  | .colon entries key, .colon => some ⟨.value, .object entries key :: reader.stack⟩
  | .colon _ _, _ => none
  | .after v, _ => stepAfter? v reader.stack symbol

def run? : Reader → List Symbol → Option Reader
  | reader, [] => some reader
  | reader, symbol :: rest =>
      match reader.step? symbol with
      | none => none
      | some next => run? next rest

def result? : Reader → Option Json
  | ⟨.after v, []⟩ => some v
  | _ => none

end Reader

def ofSymbols? (symbols : List Symbol) : Option Json :=
  (Reader.start.run? symbols).bind Reader.result?

def decode? (text : String) : Option Json :=
  (symbols? text.toList).bind ofSymbols?

end JsonQuery.Json
