import PathReplay.CommandLine.Run

/-!
# The command

Reads files for `CommandLine.run` and prints what it leaves behind: its lines, its notes and its exit code.
-/

namespace PathReplay.CommandLine

def readTextFile (path : String) : IO (Except FileFailure String) := do
  if path.toList.contains '\x00' then return .error .badName
  try
    match String.fromUTF8? (← IO.FS.readBinFile path) with
    | some text => return .ok text
    | none => return .error .unreadable
  catch e =>
    match e with
    | .noFileOrDirectory .. => return .error .missing
    | .inappropriateType _ 20 _ => return .error .notDirectory
    | .invalidArgument _ 36 _ => return .error .nameTooLong
    | _ => return .error .unreadable

end PathReplay.CommandLine

open PathReplay.CommandLine in
def main (args : List String) : IO UInt32 := do
  let outcome ← run readTextFile args
  for line in outcome.lines do IO.println line
  for note in outcome.notes do IO.eprintln note
  return UInt32.ofNat outcome.exitCode
