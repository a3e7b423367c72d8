import PathReplay.Text.Hex

/-!
# What can fail in an emulation

Reading and writing memory never fails: unmapped memory reads as zero and a write maps what it needs.
`Error.message` is the wording of each cause.
-/

namespace PathReplay

/-- The causes for which a query or an instruction fails. -/
inductive Error where
  /-- The architecture has no registers or instructions here. -/
  | unsupportedArchitecture (name : String)
  /-- The architecture has no register of that name. -/
  | unknownRegister (name : String)
  /-- A stack register of the floating point unit was used as an integer. -/
  | floatRegister (name : String)
  /-- The function at the address declares no arguments and no count was given. -/
  | unresolvedSignature (entry : UInt64)
  /-- No path leads from the function's entry to the address. -/
  | pathNotFound (address : UInt64)
  /-- No function contains the address. -/
  | functionNotFound (address : UInt64)
  /-- There is no instruction at the address, or it lacks an operand. -/
  | invalidInstruction (address : UInt64)
deriving DecidableEq, Repr

def Error.message : Error → String
  | unsupportedArchitecture name => "unsupported architecture: " ++ name
  | unknownRegister name => "unknown register: " ++ name
  | floatRegister name => "register " ++ name ++ " holds a floating-point value"
  | unresolvedSignature entry =>
    "unable to resolve a function signature for " ++ Hex.lower entry.toNat
  | pathNotFound address => "no path from function entry reaches " ++ Hex.lower address.toNat
  | functionNotFound address => "no function contains " ++ Hex.lower address.toNat
  | invalidInstruction address => "invalid instruction at " ++ Hex.lower address.toNat

end PathReplay
