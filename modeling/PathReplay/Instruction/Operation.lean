import PathReplay.Machine.Tracking
import PathReplay.Instruction.Condition
import PathReplay.Instruction.Branch
import PathReplay.Instruction.Integer
import PathReplay.Instruction.FloatingPoint

/-!
# Operations and their mnemonics

`Operation` is what an instruction does, `Operation.ofMnemonic?` the operation of a mnemonic and
`Operation.run` its effect. Conditional moves, sets and jumps end in a condition. `Machine.execute` executes
the instruction at an address; an instruction whose mnemonic is not known has no effect of its own. At an
instruction that `Instruction.Aborts` the program ends, and what `Machine.execute` gives there stands for nothing.
-/

namespace PathReplay

inductive Operation where
  | nop
  | move
  | moveSigned
  | loadAddress
  | exchange
  | push
  | pop
  | pushAll
  | popAll
  | leave
  | extendAccumulator (source : String) (width : Nat) (target : String)
  | fillSign (width : Nat)
  | moveString
  | storeString
  | loadString
  | add (withCarry : Bool)
  | subtract (withBorrow : Bool)
  | compare
  | increment
  | decrement
  | negate
  | and
  | or
  | xor
  | test
  | complement
  | shiftLeft
  | shiftRight
  | shiftRightSigned
  | rotateLeft
  | rotateRight
  | multiply
  | multiplySigned
  | divide
  | divideSigned
  | branch
  | call
  | ret
  | loop
  | branchIfZero (counter : String)
  | loadFloat
  | loadInteger
  | storeFloat (pops : Bool)
  | storeInteger (pops : Bool)
  | addFloat (pops : Bool)
  | subtractFloat (pops : Bool)
  | multiplyFloat (pops : Bool)
  | divideFloat (pops : Bool)
  | negateFloat
  | absoluteFloat
  | exchangeFloat
  | pushConstant (x : Double)
  | compareFloat (pops : Bool)
  | moveIf (c : Condition)
  | setIf (c : Condition)
  | branchIf (c : Condition)
deriving DecidableEq

namespace Operation

def mnemonics : List (String × Operation) :=
  [("nop", nop), ("mov", move), ("movzx", move), ("movsx", moveSigned), ("movsxd", moveSigned),
   ("lea", loadAddress), ("xchg", exchange), ("push", push), ("pop", pop), ("pushad", pushAll),
   ("pusha", pushAll), ("popad", popAll), ("popa", popAll), ("leave", leave),
   ("cbw", extendAccumulator "al" 1 "ax"), ("cwde", extendAccumulator "ax" 2 "eax"),
   ("cdqe", extendAccumulator "eax" 4 "rax"), ("cwd", fillSign 2), ("cdq", fillSign 4),
   ("cqo", fillSign 8),
   ("movs", moveString), ("movsb", moveString), ("movsw", moveString), ("movsd", moveString),
   ("movsq", moveString), ("stos", storeString), ("stosb", storeString), ("stosw", storeString),
   ("stosd", storeString), ("stosq", storeString), ("lods", loadString), ("lodsb", loadString),
   ("lodsw", loadString), ("lodsd", loadString), ("lodsq", loadString),
   ("add", add false), ("adc", add true), ("sub", subtract false), ("sbb", subtract true),
   ("cmp", compare), ("inc", increment), ("dec", decrement), ("neg", negate), ("and", and), ("or", or),
   ("xor", xor), ("test", test), ("not", complement), ("shl", shiftLeft), ("sal", shiftLeft),
   ("shr", shiftRight), ("sar", shiftRightSigned), ("rol", rotateLeft), ("ror", rotateRight),
   ("mul", multiply), ("imul", multiplySigned), ("div", divide), ("idiv", divideSigned),
   ("jmp", branch), ("call", call), ("ret", ret), ("retn", ret), ("loop", loop),
   ("jcxz", branchIfZero "cx"), ("jecxz", branchIfZero "ecx"), ("jrcxz", branchIfZero "rcx"),
   ("fld", loadFloat), ("fild", loadInteger), ("fst", storeFloat false), ("fstp", storeFloat true),
   ("fist", storeInteger false), ("fistp", storeInteger true), ("fadd", addFloat false),
   ("faddp", addFloat true), ("fsub", subtractFloat false), ("fsubp", subtractFloat true),
   ("fmul", multiplyFloat false), ("fmulp", multiplyFloat true), ("fdiv", divideFloat false),
   ("fdivp", divideFloat true), ("fchs", negateFloat), ("fabs", absoluteFloat),
   ("fxch", exchangeFloat), ("fldz", pushConstant .zero), ("fld1", pushConstant .one),
   ("fcom", compareFloat false), ("fcomp", compareFloat true)]

def conditional? (mnemonic : String) : Option Operation :=
  let suffix := fun cs => Condition.ofSuffix? (String.ofList cs)
  match mnemonic.toList with
  | 'c' :: 'm' :: 'o' :: 'v' :: cs => (suffix cs).map moveIf
  | 's' :: 'e' :: 't' :: cs => (suffix cs).map setIf
  | 'j' :: cs => (suffix cs).map branchIf
  | _ => none

def ofMnemonic? (mnemonic : String) : Option Operation :=
  (mnemonics.lookup mnemonic).or (conditional? mnemonic)

open Exec in
def run (op : Operation) (i : Instruction) : Exec Unit :=
  match op with
  | nop => pure ()
  | move => Exec.move i
  | moveSigned => Exec.moveSigned i
  | loadAddress => Exec.loadAddress i
  | exchange => Exec.exchange i
  | push => Exec.pushOperand i
  | pop => Exec.popOperand i
  | pushAll => Exec.pushAll
  | popAll => Exec.popAll
  | leave => Exec.leave
  | extendAccumulator source width target => Exec.extendAccumulator source width target
  | fillSign width => Exec.fillSign width
  | moveString => Exec.moveString i
  | storeString => Exec.storeString i
  | loadString => Exec.loadString i
  | add withCarry => Exec.add i withCarry
  | subtract withBorrow => Exec.subtract i withBorrow
  | compare => Exec.compare i
  | increment => Exec.increment i
  | decrement => Exec.decrement i
  | negate => Exec.negate i
  | and => Exec.bitwise i (· &&& ·)
  | or => Exec.bitwise i (· ||| ·)
  | xor => Exec.bitwise i (· ^^^ ·)
  | test => Exec.test i
  | complement => Exec.complement i
  | shiftLeft => Exec.shift i Arithmetic.shiftLeft
  | shiftRight => Exec.shift i Arithmetic.shiftRight
  | shiftRightSigned => Exec.shift i Arithmetic.shiftRightSigned
  | rotateLeft => Exec.rotate i Arithmetic.rotateLeft?
  | rotateRight => Exec.rotate i Arithmetic.rotateRight?
  | multiply => Exec.multiply i
  | multiplySigned => Exec.multiplySigned i
  | divide => Exec.divide i
  | divideSigned => Exec.divideSigned i
  | branch => Exec.branch i
  | call => Exec.call i
  | ret => Exec.ret i
  | loop => Exec.loop i
  | branchIfZero counter => Exec.branchIfZero counter i
  | loadFloat => Exec.loadFloat i
  | loadInteger => Exec.loadInteger i
  | storeFloat pops => Exec.storeFloat i pops
  | storeInteger pops => Exec.storeInteger i pops
  | addFloat pops => Exec.combine i Double.add pops
  | subtractFloat pops => Exec.combine i Double.sub pops
  | multiplyFloat pops => Exec.combine i Double.mul pops
  | divideFloat pops => Exec.combine i Double.div pops
  | negateFloat => Exec.mapTop Double.neg
  | absoluteFloat => Exec.mapTop Double.abs
  | exchangeFloat => Exec.exchangeFloat i
  | pushConstant x => Exec.pushFloat x
  | compareFloat pops => Exec.compareFloat i pops
  | moveIf c => do if ← view fun m => c.holds m.registers then Exec.move i
  | setIf c => do Exec.storeBool i (← view fun m => c.holds m.registers)
  | branchIf c => do Exec.branchIf i (← view fun m => c.holds m.registers)

end Operation

/-- A rotate of an operand without any bits takes a remainder by zero, which ends the program. -/
def Instruction.Aborts (i : Instruction) : Prop :=
  i.mnemonic ∈ ["rol", "ror"] ∧ ∃ o ∈ i.operands[0]?, Arithmetic.widthBits o.width = 0

instance (i : Instruction) : Decidable i.Aborts := inferInstanceAs (Decidable (_ ∧ _))

namespace Machine

/-- The machine as it is when an instruction's effect begins: the current function and the variables of the
operands are known, and the instruction pointer is at the instruction that follows. -/
def prepare (m : Machine) (a : Address) (i : Instruction) : Machine :=
  (((m.enter a).withIp a).track i).withIp i.next

/-- Executes the instruction at an address. Control is then wherever the instruction sent it. -/
def execute (a : Address) : Exec Unit := fun m =>
  match m.listing.decode? a with
  | none => .error (.invalidInstruction a) m
  | some i =>
    match Operation.ofMnemonic? i.mnemonic with
    | some op => op.run i (m.prepare a i)
    | none => .ok () (m.prepare a i)

end Machine
end PathReplay
