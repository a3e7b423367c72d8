import PathReplay.Machine.Operand
import PathReplay.Instruction.Arithmetic

/-!
# Executing on a machine

An instruction's effect is an `Exec`: a function from a machine to the machine after it that may fail with an
error, keeping what was done up to then. These are the steps that the instructions are made of.
-/

namespace PathReplay

/-- An effect on a machine. A failure leaves the machine as it was at that point. -/
abbrev Exec (α : Type) := EStateM Error Machine α

namespace Exec

variable {α β : Type}

/-! ## Steps in a row -/

theorem bind_apply (x : Exec α) (f : α → Exec β) (m : Machine) : (x >>= f) m =
    match x m with
    | .ok a m' => f a m'
    | .error e m' => .error e m' := by
  show EStateM.bind x f m = _
  unfold EStateM.bind
  cases x m <;> rfl

/-- After a step that succeeds it goes on from where that step ends. -/
theorem bind_of_ok {x : Exec α} {f : α → Exec β} {m m' : Machine} {a : α} (h : x m = .ok a m') :
    (x >>= f) m = f a m' := by
  rw [bind_apply, h]

theorem bind_of_error {x : Exec α} {f : α → Exec β} {m m' : Machine} {e : Error} (h : x m = .error e m') :
    (x >>= f) m = .error e m' := by
  rw [bind_apply, h]

/-! ## The steps -/

def view (f : Machine → α) : Exec α := fun m => .ok (f m) m

def update (f : Machine → Machine) : Exec Unit := fun m => .ok () (f m)

def viewOrFail (f : Machine → Except Error α) : Exec α := fun m =>
  match f m with
  | .ok x => .ok x m
  | .error e => .error e m

def updateOrFail (f : Machine → Except Error Machine) : Exec Unit := fun m =>
  match f m with
  | .ok m' => .ok () m'
  | .error e => .error e m

/-- The operand at a position; an instruction that lacks it is invalid. -/
def operand (i : Instruction) (n : Nat) : Exec Operand :=
  match i.operands[n]? with
  | some o => pure o
  | none => throw (.invalidInstruction i.address)

def value (o : Operand) : Exec UInt64 := view fun m => m.operandValue o

def signedValue (o : Operand) : Exec UInt64 := view fun m => m.signedValue o

def store (o : Operand) (value : UInt64) : Exec Unit := updateOrFail fun m => m.setOperand o value

def register (name : String) : Exec UInt64 := viewOrFail fun m => m.registers.get name

def setRegister (name : String) (value : UInt64) : Exec Unit :=
  updateOrFail fun m => m.setRegister name value

def flag (f : Flag) : Exec Bool := view fun m => m.registers.flag f

def setFlags (fs : List (Flag × Bool)) : Exec Unit :=
  update fun m => m.withRegisters (fs.foldl (fun r (f, b) => r.withFlag f b) m.registers)

def arch : Exec Arch := view Machine.arch

def push (value : UInt64) : Exec Unit := update fun m => m.push value

def pop : Exec UInt64 := fun m =>
  let (v, m) := m.pop
  .ok v m

def jump (target : Address) : Exec Unit := update fun m => m.withIp target

/-- Runs a step a number of times, as long as it succeeds. -/
def iterate (step : Exec Unit) : Nat → Exec Unit
  | 0, m => .ok () m
  | n + 1, m =>
    match step m with
    | .ok _ m => iterate step n m
    | .error e m => .error e m

theorem iterate_succ (step : Exec Unit) (n : Nat) (m : Machine) :
    iterate step (n + 1) m = (step >>= fun _ => iterate step n) m := by
  rw [bind_apply, iterate]
  cases step m <;> rfl

end Exec

/-- The accumulator and its partner for the high half, by operand width. -/
def accumulators (width : Nat) : String × String :=
  match width with
  | 1 => ("al", "ah")
  | 2 => ("ax", "dx")
  | 4 => ("eax", "edx")
  | _ => ("rax", "rdx")

end PathReplay
