import PathReplay.LibC.Basic
import PathReplay.Machine.Arguments

/-!
# Stepping over calls

A call never enters its target. A call to an emulated library function runs it in place; any other call is
recorded. Either way the stack arguments are released if the convention has the called function do that.
-/

namespace PathReplay.Machine

/-- The name of a call's target: of the place its address is loaded from, or of the target itself. -/
def targetName? (m : Machine) (o : Operand) (target : Address) : Option String :=
  ((m.operandAddress? o).bind m.listing.nameAt?).or (m.listing.nameAt? target)

/-- The machine with the stack arguments of a call released, if that is the called function's task. -/
def releaseArguments (m : Machine) (c : Convention) (count : Nat) : Machine :=
  let n := c.calleeCleanup count m.pointerSize
  if n = 0 then m else m.withSp (m.arch.wrap (m.sp + n))

/-- The machine after a call to an emulated library function, and whether its result could be stored. -/
def callRoutine (m : Machine) (e : LibC.Entry) (name : String) (target : Address) :
    EStateM.Result Error Machine Unit :=
  let convention := m.effectiveConvention (some e.convention)
  let args := m.readArguments target convention e.routine.arity
  let (result, m) := e.routine.call (LibC.undecorated name) args m
  match m.setRegister m.arch.resultRegister result with
  | .ok m => .ok () (m.releaseArguments convention e.routine.arity)
  | .error err => .error err m

def recordCall (m : Machine) (site target : Address) (name : Option String) : Machine :=
  let args := match m.functionArguments (some target) none with
    | .ok args => args
    | .error _ => []
  let m := match m.listing.prototype? target with
    | some p => m.releaseArguments (m.effectiveConvention p.convention) p.args.length
    | none => m
  { m with calls := m.calls.insert site ⟨site, target, name, args⟩ }

/-- A call instruction. Without an operand it has no effect. -/
def call (m : Machine) (i : Instruction) : EStateM.Result Error Machine Unit :=
  match i.operands with
  | [] => .ok () m
  | o :: _ =>
    let target := m.operandValue o
    let name := m.targetName? o target
    match name.bind fun n => (LibC.find? n).map fun e => (n, e) with
    | some (n, e) => m.callRoutine e n target
    | none => .ok () (m.recordCall i.address target name)

end PathReplay.Machine
