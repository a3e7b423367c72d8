import PathReplay.Config
import PathReplay.Listing.Export

/-!
# Programs of a project

A `Program` is what a project knows about one program: where its listing is and how to emulate it.
`Program.overriddenBy` replaces what was asked for otherwise.
-/

namespace PathReplay

/-- What a project knows about a program. -/
structure Program where
  /-- The architecture, if the one in the listing does not count. -/
  arch : Option Arch := none
  name : Option String := none
  /-- Where the listing is, from the directory of the project's file. -/
  listingPath : String := "export.json"
  config : Config := {}
deriving DecidableEq, Inhabited

namespace Program

open Decoder

/-- The program as a document. Its name is not in it. -/
def toJson (p : Program) : Json :=
  .record [("arch", .optional Arch.toJson p.arch), ("export", .text p.listingPath),
    ("emulator", p.config.toJson)]

/-- A program from a document, without a name. Written as an array it begins with the architecture. -/
def ofJson? : Decoder Program := fun j => do
  let fields ← j.fields? ["arch", "export", "emulator"]
  match fields.values with
  | [arch, listingPath, config] =>
    let arch ← if fields.ordered then required (optional Arch.ofJson?) arch
      else withDefault (optional Arch.ofJson?) none arch
    let d : Program := {}
    return ⟨arch, none, ← withDefault text d.listingPath listingPath,
      ← withDefault Config.ofJson? d.config config⟩
  | _ => none

/-- Settings that replace those of a program, where they are given. -/
structure Override where
  arch : Option Arch := none
  name : Option String := none
  listingPath : Option String := none
deriving DecidableEq, Inhabited

def overriddenBy (p : Program) (o : Override) : Program where
  arch := o.arch <|> p.arch
  name := o.name <|> p.name
  listingPath := o.listingPath.getD p.listingPath
  config := p.config

end Program
end PathReplay
