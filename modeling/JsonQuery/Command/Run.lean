import JsonQuery.Command.Arguments
import JsonQuery.Session

/-!
# Running commands

What a command prints and how it exits.  A search reads its document first, then the expression, and
only then decodes the document and evaluates; the first of these steps that fails decides the
message.
-/

set_option autoImplicit false

namespace JsonQuery

inductive FileFault where
  | missing
  | denied
  | directory
  | other (text : String)

def FileFault.message : FileFault → String
  | .missing => "No such file or directory (os error 2)"
  | .denied => "Permission denied (os error 13)"
  | .directory => "Is a directory (os error 21)"
  | .other text => text

inductive CommandError where
  | expression (e : Error)
  | invalidJson
  | file (fault : FileFault)
  | noInput

def CommandError.message : CommandError → String
  | .expression e => e.message
  | .invalidJson => "Invalid JSON: the document is not well-formed"
  | .file fault => "IO error: " ++ fault.message
  | .noInput => "No input provided. Use --input, --file or pipe JSON to stdin."

structure SearchOptions where
  expression : String
  /-- The text of the document, if there is one. -/
  input : Option String
  syntaxOnly : Bool
  lenient : Bool
  caching : Bool

inductive SearchResult where
  /-- The expression can be read, and no more was asked. -/
  | wellFormed
  | document (json : Json)

/-- Reads an expression and, unless only that was asked, evaluates it on a document. -/
def SearchOptions.run (options : SearchOptions) : Outcome (Except CommandError SearchResult) :=
  let session := Session.start
    { Options.standard with caching := options.caching, lenient := options.lenient }
  match (session.compile options.expression).1 with
  | .error e => .answer (.error (.expression e))
  | .ok compiled =>
      if options.syntaxOnly then .answer (.ok .wellFormed)
      else
        match options.input with
        | none => .answer (.error .noInput)
        | some text =>
            match Json.decode? text with
            | none => .answer (.error .invalidJson)
            | some json =>
                match compiled.search (Value.ofJson json) with
                | .answer v => .answer (.ok (.document v.toJson))
                | .failure e => .answer (.error (.expression e))
                | .aborted => .aborted
                | .unsettled => .unsettled

structure Exit where
  code : UInt32
  output : String
  messages : String

def Exit.success (output : String) : Exit :=
  ⟨0, output, ""⟩

def Exit.failed (e : CommandError) : Exit :=
  ⟨1, "", e.message ++ "\n"⟩

namespace Request

def options (request : Request) (document : String) : SearchOptions :=
  { expression := request.expression
    input := some document
    syntaxOnly := request.syntaxOnly
    lenient := request.lenient
    caching := request.caching }

def print (request : Request) : SearchResult → String
  | .wellFormed => "Syntax is valid\n"
  | .document json => (if request.indented then json.encodeIndented else json.encode) ++ "\n"

/-- Runs a request on a document that was read, or could not be. -/
def run (request : Request) : Except FileFault String → Outcome Exit
  | .error fault => .answer (.failed (.file fault))
  | .ok document => do
      match ← (request.options document).run with
      | .ok result => return .success (request.print result)
      | .error e => return .failed e

end Request

namespace Command

def signatures : List String :=
  Builtin.all.map Builtin.signatureText

def functionList : String :=
  "BUILT-IN FUNCTIONS\n\n" ++ String.join (signatures.map fun s => "  " ++ s ++ "\n") ++
    "\nPass functions a `&expr` reference where an expression argument is expected.\n"

def usage : String :=
  "Usage: jmes search [OPTIONS] <EXPRESSION>\n       jmes functions\n"

def versionText : String :=
  "jmes 0.1.0\n"

/-- Runs a command, where `read` gives the document of an origin. -/
def run (read : Origin → Except FileFault String) : Command → Outcome Exit
  | .search request => request.run (read request.origin)
  | .functions => .answer (.success functionList)
  | .help => .answer (.success usage)
  | .version => .answer (.success versionText)

/-- Runs the program on its arguments.  Arguments that ask for nothing leave the usage as a message.
No exit comes of a search that is aborted. -/
def runArguments (read : Origin → Except FileFault String) (args : List String) : Outcome Exit :=
  match ofArguments? args with
  | some command => command.run read
  | none => .answer ⟨2, "", usage⟩

end Command

end JsonQuery
