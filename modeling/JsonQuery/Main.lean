import JsonQuery.Command.Run

/-!
# The program

Reads the document that a command asks for, runs the command and prints what it leaves.
-/

set_option autoImplicit false

namespace JsonQuery

def FileFault.ofIOError : IO.Error → FileFault
  | .noFileOrDirectory .. => .missing
  | .permissionDenied .. => .denied
  | .inappropriateType .. => .directory
  | e => .other (toString e)

def Origin.read : Origin → IO (Except FileFault String)
  | .inline text => return .ok text
  | .file path => do
      try return .ok (← IO.FS.readFile path)
      catch e => return .error (.ofIOError e)
  | .standardInput => do
      let stream ← IO.getStdin
      let mut text := ""
      repeat
        let line ← stream.getLine
        if line.isEmpty then break
        text := text ++ line
      return .ok text

def Command.origin? : Command → Option Origin
  | .search request => some request.origin
  | _ => none

end JsonQuery

open JsonQuery in
def main (args : List String) : IO UInt32 := do
  let document ←
    match (Command.ofArguments? args).bind Command.origin? with
    | some origin => origin.read
    | none => pure (.ok "")
  match Command.runArguments (fun _ => document) args with
  | .answer exit => do
      (← IO.getStdout).putStr exit.output
      (← IO.getStderr).putStr exit.messages
      return exit.code
  | _ => do
      (← IO.getStderr).putStr "the order of the keys contradicts itself\n"
      return 101
