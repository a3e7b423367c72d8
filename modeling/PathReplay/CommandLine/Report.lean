import PathReplay.Graph.Trace

/-!
# Reports

The lines that the commands print: blocks with their edges, numbered paths, and machines with the operands
and the arguments that an instruction has there.
-/

namespace PathReplay.CommandLine

def addressesBy (separator : String) (as : List Address) : String :=
  separator.intercalate (as.map Hex.address)

def blockLine (b : BlockRecord) : String :=
  Hex.address b.start ++ " - " ++ Hex.address b.stop ++ "  preds: [" ++ addressesBy ", " b.preds ++
    "]  succs: [" ++ addressesBy ", " b.succs ++ "]"

def rightAligned (width : Nat) (s : String) : String :=
  String.ofList (List.replicate (width - s.length) ' ') ++ s

def pathLine (number : Nat) (starts : List Address) : String :=
  rightAligned 4 (toString number) ++ ": " ++ addressesBy " -> " starts

def operandLine (m : Machine) (position : Nat) (o : Operand) : String :=
  "    op" ++ toString position ++ " " ++ o.text ++ " = " ++ Hex.upper (m.operandValue o).toNat ++
    match m.operandAddress? o with
    | some a => " @ " ++ Hex.address a
    | none => ""

/-- The declaration of the function that is called at the instruction pointer, and its arguments. -/
def callLines (m : Machine) : List String :=
  match m.functionSignature none none with
  | .ok s =>
    ("    " ++ s.declaration) :: (m.argumentsOf s).map fun arg =>
      "        " ++ arg.typeName ++ " " ++ arg.name ++ " = " ++ Hex.upper arg.value.toNat
  | .error _ => []

def variableLines (m : Machine) : List String :=
  match m.known.names with
  | [] => []
  | names => ["    variables: " ++ ", ".intercalate names]

/-- The instruction at the instruction pointer of a machine and what it works on. -/
def machineLines (m : Machine) : List String :=
  match m.instruction? with
  | none => [Hex.address m.ip ++ ": <undecodable>"]
  | some i =>
    (Hex.address m.ip ++ ": " ++ i.mnemonic ++ " " ++ ", ".intercalate (i.operands.map (·.text))) ::
      (i.operands.mapIdx (operandLine m) ++ (if i.isCall then callLines m else []) ++ variableLines m)

def machinesLines (ms : List Machine) : List String :=
  (ms.mapIdx fun n m => ("context " ++ toString (n + 1) ++ ":") :: machineLines m).flatten

end PathReplay.CommandLine
