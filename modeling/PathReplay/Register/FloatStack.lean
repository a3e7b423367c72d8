import PathReplay.Register.Layout
import PathReplay.Text.Digits
import PathReplay.Double.Basic

/-!
# The floating point register stack

Eight physical registers are addressed from the `top` field of the status word: `st0` is the physical
register at `top`. A push and a pop move `top`; data never moves between physical registers. The tag word
has two bits for each physical register: valid, zero, special or empty.

`FloatStack.slot` is the view of the stack: eight optional values, `st0` first.
-/

namespace PathReplay

/-- The status, control and tag words with their bit fields: stores 0, 1 and 2. -/
def Layout.floatWords : Layout 3 where
  fields :=
    windows 0
      [("status", 0, 16), ("i", 0, 1), ("d", 1, 1), ("z", 2, 1), ("o", 3, 1), ("u", 4, 1), ("p", 5, 1),
       ("sf", 6, 1), ("ir", 7, 1), ("c0", 8, 1), ("c1", 9, 1), ("c2", 10, 1), ("top", 11, 3),
       ("c3", 14, 1), ("b", 15, 1)] ++
    windows 1
      [("control", 0, 16), ("im", 0, 1), ("dm", 1, 1), ("zm", 2, 1), ("om", 3, 1), ("um", 4, 1),
       ("pm", 5, 1), ("iem", 7, 1), ("pc", 8, 2), ("rc", 10, 2), ("ic", 12, 1)] ++
    windows 2
      [("tag", 0, 16), ("tag0", 0, 2), ("tag1", 2, 2), ("tag2", 4, 2), ("tag3", 6, 2), ("tag4", 8, 2),
       ("tag5", 10, 2), ("tag6", 12, 2), ("tag7", 14, 2)]

/-- The floating point unit: eight physical registers and its three words. -/
structure FloatStack where
  data : Vector Double 8
  words : Stores 3
deriving DecidableEq

namespace FloatStack

def initial : FloatStack where
  data := Vector.replicate 8 .zero
  words := #v[0, 0x037F, 0xFFFF]

def topField : Field 3 := ⟨0, 11, 3, false⟩
def invalidField : Field 3 := ⟨0, 0, 1, false⟩
def stackFaultField : Field 3 := ⟨0, 6, 1, false⟩
def directionField : Field 3 := ⟨0, 9, 1, false⟩
def conditionField (bit : Nat) : Field 3 := ⟨0, bit, 1, false⟩
def tagField (physical : Fin 8) : Field 3 := ⟨2, 2 * physical.val, 2, false⟩

def emptyTag : BitVec 128 := 3

/-- The tag of a value: zero, finite, or neither. -/
def tagOf (x : Double) : BitVec 128 := if x.isZero then 1 else if x.isFinite then 0 else 2

/-- The physical register that `st0` is. -/
def top (s : FloatStack) : Fin 8 := Fin.ofNat 8 (topField.read s.words).toNat

/-- The physical register of a stack position, counted modulo eight. -/
def physical (s : FloatStack) (i : Nat) : Fin 8 := Fin.ofNat 8 (s.top.val + i)

def isEmpty (s : FloatStack) (p : Fin 8) : Bool := (tagField p).read s.words == emptyTag

/-- The state with one word field written. -/
def withField (s : FloatStack) (f : Field 3) (value : BitVec 128) : FloatStack :=
  { s with words := f.write s.words value }

def load (s : FloatStack) (p : Fin 8) (x : Double) : FloatStack :=
  { data := s.data.set p x, words := (tagField p).write s.words (tagOf x) }

/-- The value at a stack position, if there is one. -/
def slot (s : FloatStack) (i : Nat) : Option Double :=
  let p := s.physical i
  if s.isEmpty p then none else some s.data[p]

/-- The state with the value at a stack position replaced; `top` stays. -/
def setSlot (s : FloatStack) (i : Nat) (x : Double) : FloatStack := s.load (s.physical i) x

def withTop (s : FloatStack) (p : Fin 8) : FloatStack :=
  s.withField topField (BitVec.ofNat 128 p.val)

def withFault (s : FloatStack) (overflow : Bool) : FloatStack :=
  ((s.withField invalidField 1).withField stackFaultField 1).withField directionField
    (if overflow then 1 else 0)

def withCondition (s : FloatStack) (c3 c2 c0 : BitVec 128) : FloatStack :=
  ((s.withField (conditionField 14) c3).withField (conditionField 10) c2).withField (conditionField 8) c0

/-- A push. Onto an occupied register it is a stack overflow, and the register is overwritten. -/
def push (s : FloatStack) (x : Double) : FloatStack :=
  let s := s.withTop (Fin.ofNat 8 (s.top.val + 7))
  let s := if s.isEmpty s.top then s else s.withFault true
  s.load s.top x

/-- A pop and the value popped. From an empty register it is a stack underflow and gives a NaN. -/
def pop (s : FloatStack) : Double × FloatStack :=
  let p := s.top
  let (x, s) := if s.isEmpty p then (Double.nan, s.withFault false) else (s.data[p], s)
  let s := s.withField (tagField p) emptyTag
  (x, s.withTop (Fin.ofNat 8 (p.val + 1)))

/-! ## Names -/

def slotNames : List String := ["st0", "st1", "st2", "st3", "st4", "st5", "st6", "st7"]

/-- The stack position of a name: `st`, `st0` to `st7`, or the spelling `st(1)`. -/
def position? (name : String) : Option Nat :=
  if name == "st" then some 0
  else match name.toList with
    | 's' :: 't' :: '(' :: rest =>
      if rest.getLast? = some ')' then
        (Digits.word? 10 rest.dropLast).bind fun i => if i < 8 then some i.toNat else none
      else none
    | _ => slotNames.idxOf? name

def names : List String := "st" :: slotNames ++ Layout.floatWords.names

def word? (s : FloatStack) (name : String) : Except Error UInt64 :=
  match Layout.floatWords.field? name with
  | some f => .ok (UInt64.ofNat (f.read s.words).toNat)
  | none => .error (.unknownRegister name)

def setWord (s : FloatStack) (name : String) (value : UInt64) : Except Error FloatStack :=
  match Layout.floatWords.field? name with
  | some f => .ok (s.withField f (value.toBitVec.setWidth 128))
  | none => .error (.unknownRegister name)

def named (s : FloatStack) (name : String) : Except Error (Option Double) :=
  match position? name with
  | some i => .ok (s.slot i)
  | none => .error (.unknownRegister name)

/-- The state with the value at a named stack position replaced. -/
def setNamed (s : FloatStack) (name : String) (x : Double) : Except Error FloatStack :=
  match position? name with
  | some i => .ok (s.setSlot i x)
  | none => .error (.unknownRegister name)

end FloatStack
end PathReplay
