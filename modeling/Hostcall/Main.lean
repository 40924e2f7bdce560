import Hostcall.CommandLine.Run

/-!
# The program

Reads the files that a command names, carries the command out and prints. The exit code is zero
on success, one on failure and two if the arguments make no command.
-/

namespace Hostcall.CommandLine

/-- Reads a file. The cause of a failure is worded as the system words it. -/
def readBytes (path : String) : IO (Except String (List UInt8)) := do
  try
    return .ok (← IO.FS.readBinFile path).data.toList
  catch e =>
    return .error (match e with
      | .noFileOrDirectory _ code _ => s!"No such file or directory (os error {code})"
      | .permissionDenied _ code _ => s!"Permission denied (os error {code})"
      | .inappropriateType _ code _ =>
        let kind := if code = 20 then "Not" else "Is"
        s!"{kind} a directory (os error {code})"
      | other => toString other)

/-- The number of bytes of an arena that the program asks the system for at most. -/
def memoryRoom : Nat := UInt32.size - 1

/-- Reports a failure. -/
def reportFailure (message : String) : IO UInt32 := do
  IO.eprintln ("error: " ++ message)
  return 1

/-- Takes a run to its end and prints its lines on the way. -/
partial def Run.follow (r : Run) : IO UInt32 := do
  let r := r.advance 1000
  for line in r.lines do
    IO.println line
  match r.ending? with
  | none => r.printed.follow
  | some (.ok ()) => return 0
  | some (.error message) => reportFailure message

/-- Carries out a command whose files have been read. -/
def Command.execute (system : System) : Command → IO UInt32
  | .run options =>
    match Run.ofOptions system options with
    | .ok r => r.follow
    | .error message => reportFailure message
  | .dump file json =>
    match dumpText system file json with
    | .ok text => do
      IO.print text
      return 0
    | .error message => reportFailure message
  | .help topic => do
    IO.print topic.text
    return 0

end Hostcall.CommandLine

open Hostcall.CommandLine in
def main (args : List String) : IO UInt32 := do
  match Command.parse? args with
  | none =>
    IO.eprint Topic.program.text
    return 2
  | some command =>
    let contents ← command.files.mapM fun path => return (path, ← readBytes path)
    let read := fun path => (contents.lookup path).getD (.error "not read")
    command.execute { read, room := memoryRoom }
