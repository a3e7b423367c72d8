import PathReplay.CommandLine.Address
import PathReplay.CommandLine.Report
import PathReplay.CommandLine.Request
import PathReplay.Project.Basic
import PathReplay.Text.Quoted

/-!
# Running a command line

`run` carries out a request. It reads the project's file and the program's listing through a function that is
given to it, so that it says nothing about where files are. A project's file may be missing unless it was
named. A listing's path starts from the directory of the project's file.
-/

namespace PathReplay.CommandLine

/-- Why a file has no contents. -/
inductive FileFailure where
  | missing
  /-- A part of the path in front of the last is a file. -/
  | notDirectory
  /-- The path has a character that no file name can have. -/
  | badName
  /-- The path, or a part of it, is longer than a file system takes. -/
  | nameTooLong
  /-- There is something else than a text. -/
  | unreadable
deriving DecidableEq, Repr

/-- Why a request is not carried out. -/
inductive Failure where
  | badAddress (spec : String)
  | badDepth (spec : String)
  | noProgram (name : String)
  | file (cause : FileFailure)
  /-- A document is malformed. -/
  | document
  | emulation (cause : Error)
deriving DecidableEq, Repr

def Failure.wording : Failure → String
  | badAddress spec => spec ++ " is not a valid address"
  | badDepth spec => spec ++ " is not a valid depth"
  | noProgram name => "The program " ++ name ++ " does not exist in the project."
  | emulation cause => cause.message
  | _ => ""

/-- A failure with a kind and a quoted wording. -/
def customNote (kind wording : String) : String :=
  "Error: Custom \x7b kind: " ++ kind ++ ", error: " ++ Text.quoted wording ++ " \x7d"

def systemNote (code : Nat) (kind message : String) : String :=
  "Error: Os \x7b code: " ++ toString code ++ ", kind: " ++ kind ++ ", message: " ++ Text.quoted message ++
    " \x7d"

def Failure.note : Failure → String
  | file .missing => systemNote 2 "NotFound" "No such file or directory"
  | file .notDirectory => systemNote 20 "NotADirectory" "Not a directory"
  | file .nameTooLong => systemNote 36 "InvalidFilename" "File name too long"
  | file .badName =>
    "Error: Error \x7b kind: InvalidInput, message: " ++
      Text.quoted "file name contained an unexpected NUL byte" ++ " \x7d"
  | file .unreadable => "Error: JSON error"
  | document => "Error: JSON error"
  | emulation cause => customNote "Other" cause.message
  | failure => customNote "InvalidInput" failure.wording

structure Outcome where
  exitCode : Nat
  lines : List String
  notes : List String
deriving DecidableEq, Repr

/-! ## Paths of files -/

/-- The parts of a path between slashes, without empty ones. -/
def pathParts (path : String) : List String :=
  (path.splitOn "/").filter (· ≠ "")

def isAbsolute (path : String) : Bool := path.toList.head? = some '/'

/-- The parts of a path, a leading dot included, any other dot left out. -/
def normalParts (path : String) : List String :=
  match pathParts path with
  | [] => []
  | p :: rest =>
    (if p = "." ∧ isAbsolute path then [] else [p]) ++ rest.filter (· ≠ ".")

def directoryOf (path : String) : String :=
  let parent := "/".intercalate (normalParts path).dropLast
  if isAbsolute path ∧ normalParts path ≠ [] then "/" ++ parent else parent

/-- A path that starts from a directory. Without one it stays relative. -/
def pathFrom (directory path : String) : String :=
  (pathParts path).foldl (fun p part => if p = "" then part else p ++ "/" ++ part) directory

/-! ## Tasks -/

def address (spec : String) : Except Failure Address :=
  match parseAddress? spec with
  | some a => .ok a
  | none => .error (.badAddress spec)

/-- How many levels of callers to follow. -/
def depthOf (config : Config) : Option String → Except Failure Nat
  | none => .ok config.defaultDepth.toNat
  | some spec =>
    match Digits.word? 10 spec.toList with
    | some depth => .ok depth.toNat
    | none => .error (.badDepth spec)

/-- The machines at an address and what they show. -/
def traceLines (l : Listing) (config : Config) (depth : Nat) (a : Address) : Except Error (List String) := do
  let tracer ← Tracer.ofAddress l config a
  return ("== " ++ Hex.address a ++ " ==") :: machinesLines (← tracer.machines depth a)

def Task.perform (l : Listing) (config : Config) : Task → Except Failure Outcome
  | .blocks spec reverse depthFirst => do
    let a ← address spec
    let chart ← (FlowChart.ofListing l a).mapError Failure.emulation
    return ⟨0, (chart.walkBlocks (some a) reverse depthFirst).map blockLine, []⟩
  | .paths spec => do
    let a ← address spec
    let chart ← (FlowChart.ofListing l a).mapError Failure.emulation
    let paths := (chart.trails a).map chart.starts
    return ⟨0, paths.mapIdx fun n p => pathLine (n + 1) p,
      if paths.isEmpty then ["No path reaches " ++ Hex.address a] else []⟩
  | .trace specs depth => do
    let addresses ← specs.mapM address
    let depth ← depthOf config depth
    let reports ← (addresses.mapM (traceLines l config depth)).mapError Failure.emulation
    return ⟨0, reports.flatten, []⟩

/-! ## Requests -/

def defaultProjectPath : String := "functrace.json"

def projectOf (isNamed : Bool) : Except FileFailure String → Except Failure Project
  | .ok text =>
    match Project.parse? text with
    | some p => .ok p
    | none => .error .document
  | .error .missing => if isNamed then .error (.file .missing) else .ok .empty
  | .error cause => .error (.file cause)

/-- The settings that a request replaces. An architecture without a known name replaces nothing. -/
def Request.override (r : Request) : Program.Override where
  arch := r.arch.bind Arch.ofName?
  listingPath := r.listing

def Request.programIn (r : Request) (p : Project) : Except Failure Program :=
  match p.resolve r.program r.override, r.program with
  | some program, _ => .ok program
  | none, name => .error (.noProgram (name.getD ""))

/-- The listing in a file that was read. A program's architecture counts more than the listing's own. -/
def listingOf (program : Program) : Except FileFailure String → Except Failure Listing
  | .ok text =>
    match Listing.parse? text with
    | some l => .ok (match program.arch with
      | some arch => l.withArch arch
      | none => l)
    | none => .error .document
  | .error cause => .error (.file cause)

variable {m : Type → Type} [Monad m]

def Request.carryOut (readFile : String → m (Except FileFailure String)) (r : Request) :
    m (Except Failure Outcome) := do
  let projectPath := r.project.getD defaultProjectPath
  match (projectOf r.project.isSome (← readFile projectPath)).bind r.programIn with
  | .error e => return .error e
  | .ok program =>
    let text ← readFile (pathFrom (directoryOf projectPath) program.listingPath)
    return (listingOf program text).bind fun l => r.task.perform l program.config

def run (readFile : String → m (Except FileFailure String)) (args : List String) : m Outcome := do
  match Request.ofArguments args with
  | .error .information => return ⟨0, [], []⟩
  | .error .malformed => return ⟨1, [], []⟩
  | .ok request =>
    match ← request.carryOut readFile with
    | .ok outcome => return outcome
    | .error failure => return ⟨1, [], [failure.note]⟩

end PathReplay.CommandLine
