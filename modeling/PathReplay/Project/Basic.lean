import PathReplay.Json.Reader
import PathReplay.Project.Program

/-!
# Projects

A `Project` is a set of named programs. `Project.resolve` picks the one to work on: the one that is named, or
the only one there is.
-/

namespace PathReplay

structure Project where
  programs : Std.ExtTreeMap String Program compare

namespace Project

def empty : Project := ⟨∅⟩

/-- The project with each program bearing the name it is known by. -/
def withNames (p : Project) : Project :=
  ⟨p.programs.map fun name program => { program with name := program.name <|> some name }⟩

def ofJson? : Decoder Project := fun j => do
  match (← j.fields? ["programs"]).values with
  | [programs] => return (⟨← Decoder.required (Decoder.nameMap Program.ofJson?) programs⟩ : Project).withNames
  | _ => none

def parse? (s : String) : Option Project := (Json.parse? s).bind ofJson?

def program? (p : Project) (name : String) : Option Program := p.programs[name]?

/-- The programs and their names, in the order of the names. -/
def toList (p : Project) : List (String × Program) := p.programs.toList

/-- The program that is meant when none is named. -/
def default? (p : Project) : Option (String × Program) := p.toList.head?

/-- The program to work on, or `none` if there is none of the given name. -/
def resolve (p : Project) (name : Option String) (o : Program.Override) : Option Program :=
  match name with
  | some name => (p.program? name).map (·.overriddenBy o)
  | none => some ((p.default?.map Prod.snd).getD {} |>.overriddenBy o)

end Project
end PathReplay
