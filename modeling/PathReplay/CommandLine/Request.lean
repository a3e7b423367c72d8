import PathReplay.CommandLine.Options
import PathReplay.Text.Blank

/-!
# Requests

A command line asks for one task, and may say which project, program, listing and architecture it is about.
Those settings stand before or after the command; where they stand in both places, the later ones count.
`Request.ofArguments` reads a command line.
-/

namespace PathReplay.CommandLine

inductive Command where
  | blocks
  | paths
  | trace
deriving DecidableEq, Repr

namespace Command

def all : List Command := [blocks, paths, trace]

/-- The name of a command in a list of them. -/
def label : Command → String
  | blocks => "Blocks"
  | paths => "Paths"
  | trace => "Trace"

def word (c : Command) : String := Text.lowercase c.label

/-- The command of a word, in any case. -/
def ofWord? (w : String) : Option Command := all.find? fun c => c.word = Text.lowercase w

end Command

/-- What to do, as it was asked for. -/
inductive Task where
  /-- List the blocks of a function in the order of a walk. -/
  | blocks (address : String) (reverse depthFirst : Bool)
  /-- List the paths to an address. -/
  | paths (address : String)
  /-- Show the machines that reach each of some addresses. -/
  | trace (addresses : List String) (depth : Option String)
deriving DecidableEq, Repr

structure Request where
  task : Task
  project : Option String
  program : Option String
  listing : Option String
  arch : Option String
deriving DecidableEq, Repr

namespace Request

/-- The options that may stand on either side of the command. -/
def sharedOptions : List String := ["program", "export", "arch", "project"]

def sharedFlags : List String := ["verbose", "help", "version"]

def sharedLetters : List (Char × String) := [('v', "verbose"), ('h', "help"), ('V', "version")]

def outerGrammar : Grammar where
  options := sharedOptions
  flags := sharedFlags
  letters := sharedLetters
  commands := "help" :: Command.all.map Command.word
  room := some 0

def grammarOf (c : Command) : Grammar where
  options := if c = .trace then "depth" :: sharedOptions else sharedOptions
  flags := if c = .blocks then ["reverse", "dfs"] ++ sharedFlags else sharedFlags
  letters := sharedLetters
  commands := []
  room := if c = .trace then none else some 1

/-- The task that the arguments after a command make up. -/
def taskOf? (c : Command) (r : Reading) : Option Task :=
  match c, r.operands with
  | .blocks, [a] => some (.blocks a (r.flags.contains "reverse") (r.flags.contains "dfs"))
  | .paths, [a] => some (.paths a)
  | .trace, a :: more => some (.trace (a :: more) (r.value? "depth"))
  | _, _ => none

/-- The request from the arguments in front of a command and after it. -/
def ofReadings? (c : Command) (outer inner : Reading) : Option Request :=
  if outer.isComplete && inner.isComplete then
    let value? := fun name => (inner.value? name).or (outer.value? name)
    (taskOf? c inner).map fun task =>
      ⟨task, value? "project", value? "program", value? "export", value? "arch"⟩
  else none

/-- Whether a request for help is about something there is help for. -/
def isHelpTopic (args : List String) : Bool :=
  match args with
  | [] => true
  | [topic] => outerGrammar.commands.contains topic
  | _ => false

def ofArguments (args : List String) : Except Halt Request := do
  let outer ← Reading.ofArguments outerGrammar args
  match outer.next with
  | none => throw .malformed
  | some (word, rest) =>
    match Command.ofWord? word with
    | none => throw (if isHelpTopic rest then .information else .malformed)
    | some c =>
      let inner ← Reading.ofArguments (grammarOf c) rest
      match ofReadings? c outer inner with
      | some request => return request
      | none => throw .malformed

end Request
end PathReplay.CommandLine
