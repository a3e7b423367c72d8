/-!
# Reading options

The arguments of one level of a command line. Options are written `--name value` or `--name=value`; flags
have no value and may have a letter. After `--` nothing is an option. `Reading.ofArguments` sorts the
arguments out, and `Reading.isComplete` says whether each option has its value and none was given twice.
-/

namespace PathReplay.CommandLine

/-- What one level of a command line accepts. -/
structure Grammar where
  /-- The names of the options with a value. -/
  options : List String
  /-- The names of the flags. -/
  flags : List String
  /-- The flags that have a letter. -/
  letters : List (Char × String)
  /-- The words that end this level and begin the next. -/
  commands : List String
  /-- The most operands there may be. -/
  room : Option Nat

/-- Why arguments are not read to their end. -/
inductive Halt where
  /-- They ask for a help text or the version. -/
  | information
  | malformed
deriving DecidableEq, Repr

/-- The arguments of one level. -/
structure Reading where
  /-- The options as they were given, with their values. -/
  options : List (String × Option String) := []
  /-- The flags as they were given. -/
  flags : List String := []
  operands : List String := []
  /-- The word that ended this level, and what follows it. -/
  next : Option (String × List String) := none

namespace Reading

def value? (r : Reading) (name : String) : Option String := (r.options.lookup name).join

/-- Whether each option has its value and no option or flag was given twice. -/
def isComplete (r : Reading) : Bool :=
  r.options.all (·.2.isSome) && decide (r.options.map (·.1)).Nodup && decide r.flags.Nodup

def withOption (r : Reading) (name : String) (value : Option String) : Reading :=
  { r with options := r.options ++ [(name, value)] }

/-- The reading with the option whose value was still expected left without one. -/
def abandon (r : Reading) : Option String → Reading
  | some name => r.withOption name none
  | none => r

/-- The flags that ask for a text instead of a run. -/
def isInformation (flag : String) : Bool := flag = "help" || flag = "version"

def addFlag (r : Reading) (flag : String) : Except Halt Reading :=
  if isInformation flag then .error .information else .ok { r with flags := r.flags ++ [flag] }

def addLetters (g : Grammar) : Reading → List Char → Except Halt Reading
  | r, [] => .ok r
  | r, c :: cs =>
    match g.letters.lookup c with
    | some flag => (r.addFlag flag).bind fun r => addLetters g r cs
    | none => .error .malformed

def addOperand (g : Grammar) (r : Reading) (a : String) : Except Halt Reading :=
  if g.room.all (r.operands.length < ·) then .ok { r with operands := r.operands ++ [a] }
  else .error .malformed

def addOperands (g : Grammar) : Reading → List String → Except Halt Reading
  | r, [] => .ok r
  | r, a :: rest => (addOperand g r a).bind fun r => addOperands g r rest

/-- Adds a named option or flag, and says which option expects its value next. A flag ignores a value. -/
def addNamed (g : Grammar) (r : Reading) (cs : List Char) : Except Halt (Reading × Option String) :=
  let body := cs.dropWhile (· = '-')
  let name := String.ofList (body.takeWhile (· ≠ '='))
  let value := match body.dropWhile (· ≠ '=') with
    | [] => none
    | v => some (String.ofList (v.dropWhile (· = '=')))
  if name ∈ g.options then
    match value with
    | some v => .ok (r.withOption name (some v), none)
    | none => .ok (r, some name)
  else if name ∈ g.flags then (r.addFlag name).map fun r => (r, none)
  else .error .malformed

/-- Reads on, with an option whose value may be expected. -/
def read (g : Grammar) : Option String → Reading → List String → Except Halt Reading
  | awaited, r, [] => .ok (r.abandon awaited)
  | awaited, r, a :: rest =>
    match a.toList, awaited with
    | ['-', '-'], _ => addOperands g (r.abandon awaited) rest
    | '-' :: '-' :: c :: cs, _ =>
      (addNamed g (r.abandon awaited) ('-' :: '-' :: c :: cs)).bind fun (r, awaited) =>
        read g awaited r rest
    | '-' :: c :: cs, _ => (addLetters g (r.abandon awaited) (c :: cs)).bind fun r => read g none r rest
    | _, some name => read g none (r.withOption name (some a)) rest
    | _, none =>
      if a ∈ g.commands then .ok { r with next := some (a, rest) }
      else (addOperand g r a).bind fun r => read g none r rest

/-- The arguments of one level, sorted out. -/
def ofArguments (g : Grammar) (args : List String) : Except Halt Reading := read g none {} args

end Reading
end PathReplay.CommandLine
