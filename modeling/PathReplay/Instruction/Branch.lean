import PathReplay.Machine.Call
import PathReplay.Instruction.Move

/-!
# Control transfer

Jumps, calls, returns and loops. By the time one of these runs, the instruction pointer is already at the
instruction that follows; only a branch that is taken moves it again.
-/

namespace PathReplay.Exec

/-- Moves control to the value of the first operand. -/
def branch (i : Instruction) : Exec Unit := do
  jump (← value (← operand i 0))

def branchIf (i : Instruction) (taken : Bool) : Exec Unit := if taken then branch i else pure ()

/-- A call is stepped over: no return address is pushed. -/
def call (i : Instruction) : Exec Unit := fun m => m.call i

/-- Pops the address to return to; an operand says how much stack is released after that. -/
def ret (i : Instruction) : Exec Unit := do
  jump (← pop)
  match i.operands with
  | [] => pure ()
  | o :: _ =>
    let n ← value o
    update fun m => m.withSp (m.arch.wrap (m.sp + n))

/-- Counts down and moves control unless the counter is zero then. -/
def loop (i : Instruction) : Exec Unit := do
  let a ← arch
  let count := a.wrap ((← register (counterName a)) - 1)
  setRegister (counterName a) count
  branchIf i (count != 0)

def branchIfZero (name : String) (i : Instruction) : Exec Unit := do
  branchIf i ((← register name) == 0)

end PathReplay.Exec
