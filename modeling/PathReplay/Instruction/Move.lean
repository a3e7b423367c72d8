import PathReplay.Instruction.Exec

/-!
# Data movement

Moves, exchanges, the stack, the sign extensions of the accumulator, and the string instructions. None of
them sets a flag.
-/

namespace PathReplay.Exec

def move (i : Instruction) : Exec Unit := do
  let dst ← operand i 0
  let src ← operand i 1
  store dst (← value src)

/-- Copies the second operand to the first with its sign extended. -/
def moveSigned (i : Instruction) : Exec Unit := do
  let dst ← operand i 0
  let src ← operand i 1
  store dst ((← signedValue src) &&& Word.mask dst.width)

/-- Stores the address of the second operand in the first; an operand without one counts as zero. -/
def loadAddress (i : Instruction) : Exec Unit := do
  let dst ← operand i 0
  let src ← operand i 1
  let a ← view fun m => (m.operandAddress? src).getD 0
  store dst (a &&& Word.mask dst.width)

/-- Both values are read before the first operand is written; the second is located again after that. -/
def exchange (i : Instruction) : Exec Unit := do
  let a ← operand i 0
  let b ← operand i 1
  let va ← value a
  let vb ← value b
  store a vb
  store b va

/-- Pushes an operand with its sign extended to the pointer width. -/
def pushOperand (i : Instruction) : Exec Unit := do
  let src ← operand i 0
  let v ← signedValue src
  push ((← arch).wrap v)

/-- Pops into an operand, which is located after the stack pointer has moved. -/
def popOperand (i : Instruction) : Exec Unit := do
  let dst ← operand i 0
  store dst (← pop)

/-- The general registers in the order in which they are pushed together. -/
def pushOrder : List String := ["eax", "ecx", "edx", "ebx", "esp", "ebp", "esi", "edi"]

/-- Pushes the general registers; for the stack pointer its value before the first push. Without effect on
the 64-bit architecture. -/
def pushAll : Exec Unit := do
  if (← arch) = .x86 then
    let sp ← view Machine.sp
    pushOrder.forM fun name => do
      push (← if name = "esp" then pure sp else register name)

/-- Pops the general registers; the stack pointer's slot is skipped. -/
def popAll : Exec Unit := do
  if (← arch) = .x86 then
    pushOrder.reverse.forM fun name => do
      let v ← pop
      if name = "esp" then pure () else setRegister name v

def leave : Exec Unit := do
  let bp := (← arch).framePointer
  let frame ← register bp
  update fun m => m.withSp frame
  setRegister bp (← pop)

/-- Extends the sign of one part of the accumulator into a wider one. -/
def extendAccumulator (source : String) (width : Nat) (target : String) : Exec Unit := do
  setRegister target (Word.signExtend (← register source) width)

def fillSign (width : Nat) : Exec Unit := do
  let (low, high) := accumulators width
  let fill := if Word.signBit (← register low) width then Word.mask width else 0
  setRegister high fill

def storeBool (i : Instruction) (b : Bool) : Exec Unit := do
  store (← operand i 0) b.toUInt64

/-! ## String instructions -/

/-- The most times that a repeated instruction runs. -/
def maxRepeat : Nat := 0x100000

/-- The bytes that a string instruction moves at a time: the size of its first memory operand, or what the
last letter of its mnemonic says. -/
def stringUnit (i : Instruction) : UInt64 :=
  match i.operands.find? Operand.isMemory with
  | some o => o.size
  | none =>
    match i.mnemonic.toList.getLast? with
    | some 'w' => 2
    | some 'd' => 4
    | some 'q' => 8
    | _ => 1

/-- The register that counts repeats. -/
def counterName (a : Arch) : String := a.nativeName "ecx"

/-- Runs a step once, or as often as the counter says if the instruction is repeated; then the counter is
zero. -/
def repeated (i : Instruction) (step : Exec Unit) : Exec Unit := do
  let counter := counterName (← arch)
  match i.repetition with
  | none => step
  | some _ =>
    iterate step (min (← register counter).toNat maxRepeat)
    setRegister counter 0

/-- Moves an index register by one unit in the direction of the direction flag. -/
def advance (name : String) (unit : UInt64) : Exec Unit := do
  let v ← register name
  let next := if ← flag .direction then v - unit else v + unit
  setRegister name ((← arch).wrap next)

/-- Copies from the source index to the destination index. A register operand makes it a plain move. -/
def moveString (i : Instruction) : Exec Unit := do
  if i.operands.any Operand.isRegister then move i
  else
    let unit := stringUnit i
    let source := (← arch).nativeName "esi"
    let target := (← arch).nativeName "edi"
    repeated i do
      let src ← register source
      let dst ← register target
      update fun m => m.write dst (m.memory.read src unit.toNat)
      advance source unit
      advance target unit

def storeString (i : Instruction) : Exec Unit := do
  let unit := stringUnit i
  let target := (← arch).nativeName "edi"
  repeated i do
    let v ← register (accumulators unit.toNat).1
    let dst ← register target
    update fun m => m.writeWord dst v unit.toNat
    advance target unit

def loadString (i : Instruction) : Exec Unit := do
  let unit := stringUnit i
  let source := (← arch).nativeName "esi"
  repeated i do
    let src ← register source
    let v ← view fun m => m.readWord src unit.toNat
    setRegister (accumulators unit.toNat).1 v
    advance source unit

end PathReplay.Exec
