/-!
# The command line

What the arguments of the program ask for.  Options may stand before and behind the expression; a
short option may carry its value or further short options in the same argument, and a long option
its value behind an equals sign.  No option may be given twice.
-/

set_option autoImplicit false

namespace JsonQuery

inductive Origin where
  | inline (text : String)
  | file (path : String)
  | standardInput
  deriving DecidableEq, Repr

structure Request where
  expression : String
  origin : Origin
  indented : Bool
  /-- Read the expression only. -/
  syntaxOnly : Bool
  lenient : Bool
  caching : Bool
  deriving DecidableEq, Repr

inductive Command where
  | search (request : Request)
  /-- List the functions. -/
  | functions
  | help
  | version
  deriving DecidableEq, Repr

namespace Command

inductive Flag where
  | pretty
  | syntaxOnly
  | disableErrors
  | noCache
  deriving DecidableEq, Repr

inductive Setting where
  | input
  | file
  deriving DecidableEq, Repr

inductive Choice where
  | flag (flag : Flag)
  | setting (setting : Setting)
  | help
  deriving DecidableEq, Repr

def longOption? (name : List Char) : Option Choice :=
  match String.ofList name with
  | "input" => some (.setting .input)
  | "file" => some (.setting .file)
  | "pretty" => some (.flag .pretty)
  | "syntax-only" => some (.flag .syntaxOnly)
  | "disable-errors" => some (.flag .disableErrors)
  | "no-cache" => some (.flag .noCache)
  | "help" => some .help
  | _ => none

def shortOption? : Char → Option Choice
  | 'i' => some (.setting .input)
  | 'f' => some (.setting .file)
  | 'p' => some (.flag .pretty)
  | 'h' => some .help
  | _ => none

structure Found where
  expression : Option String
  input : Option String
  file : Option String
  flags : List Flag
  /-- The option whose value the next argument is. -/
  waiting : Option Setting
  /-- Help has been asked for; nothing behind it is looked at. -/
  help : Bool

def Found.nothing : Found :=
  ⟨none, none, none, [], none, false⟩

def Found.take? (found : Found) (text : String) : Option Found :=
  match found.expression with
  | none => some { found with expression := some text }
  | some _ => none

/-- Takes the value of an option.  A path is not empty. -/
def Found.set? (found : Found) (setting : Setting) (value : String) : Option Found :=
  match setting with
  | .input =>
      if found.input.isSome then none else some { found with input := some value, waiting := none }
  | .file =>
      if found.file.isSome || value.isEmpty then none
      else some { found with file := some value, waiting := none }

def Found.raise? (found : Found) (flag : Flag) : Option Found :=
  if flag ∈ found.flags then none else some { found with flags := flag :: found.flags }

def Found.long? (found : Found) (text : List Char) : Option Found :=
  let name := text.takeWhile fun c => c != '='
  let value : Option (List Char) :=
    match text.dropWhile fun c => c != '=' with
    | [] => none
    | _ :: value => some value
  match longOption? name, value with
  | some (.setting setting), none => some { found with waiting := some setting }
  | some (.setting setting), some value => found.set? setting (String.ofList value)
  | some (.flag flag), none => found.raise? flag
  | some .help, none => some { found with help := true }
  | _, _ => none

/-- Reads short options that stand together, given without their dash. -/
def Found.short? (found : Found) : List Char → Option Found
  | [] => some found
  | c :: rest =>
      match shortOption? c with
      | some (.flag flag) => (found.raise? flag).bind fun found => found.short? rest
      | some (.setting setting) =>
          match rest with
          | [] => some { found with waiting := some setting }
          | '=' :: value => found.set? setting (String.ofList value)
          | value => found.set? setting (String.ofList value)
      | some .help => some { found with help := true }
      | none => none

/-- Reads the arguments of a search.  Behind two dashes every argument is positional. -/
def Found.read? (found : Found) : List String → Option Found
  | [] => if found.waiting.isSome then none else some found
  | arg :: rest =>
      if found.help then some found
      else
        match arg.toList with
        | ['-', '-'] =>
            if found.waiting.isSome then none
            else rest.foldlM (fun found text => found.take? text) found
        | '-' :: '-' :: name =>
            if found.waiting.isSome then none
            else (found.long? name).bind fun found => found.read? rest
        | '-' :: c :: more =>
            if found.waiting.isSome then none
            else (found.short? (c :: more)).bind fun found => found.read? rest
        | _ =>
            match found.waiting with
            | some setting => (found.set? setting arg).bind fun found => found.read? rest
            | none => (found.take? arg).bind fun found => found.read? rest

/-- The command for what has been found; a document comes from one place only. -/
def Found.command? (found : Found) : Option Command :=
  if found.help then some .help
  else
    let origin : Option Origin :=
      match found.input, found.file with
      | some text, none => some (.inline text)
      | none, some path => some (.file path)
      | none, none => some .standardInput
      | some _, some _ => none
    match found.expression, origin with
    | some expression, some origin =>
        some (.search
          { expression := expression
            origin := origin
            indented := decide (.pretty ∈ found.flags)
            syntaxOnly := decide (.syntaxOnly ∈ found.flags)
            lenient := decide (.disableErrors ∈ found.flags)
            caching := decide (.noCache ∉ found.flags) })
    | _, _ => none

def ofArguments? : List String → Option Command
  | "search" :: args => (Found.nothing.read? args).bind Found.command?
  | ["functions"] | ["functions", "--"] => some .functions
  | "functions" :: "--help" :: _ | "functions" :: "-h" :: _ => some .help
  | ["help"] | ["help", "search"] | ["help", "functions"] | ["help", "help"] => some .help
  | "--help" :: _ | "-h" :: _ => some .help
  | "--version" :: _ | "-V" :: _ => some .version
  | _ => none

end Command

end JsonQuery
