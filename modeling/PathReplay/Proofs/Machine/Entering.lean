import PathReplay.Machine.Arguments
import PathReplay.Proofs.Memory.Contents
import PathReplay.Proofs.Register.Windows

/-!
# Arguments of a function that is entered

A caller enters a function by pushing the return address and moving control to its entry.

* `registers_push`, `byte_push` : a push moves the stack pointer and leaves every byte at or above it as it was;
* `stackArguments_enter` : one slot further down, the function finds its stack arguments where the caller put them;
* `readArguments_enter` : so it finds the arguments that the caller sees at the call.
-/

namespace PathReplay

namespace Memory

/-- A word is that of memory with the same bytes there. -/
theorem readWord_congr {m m' : Memory} {a : Address} {width : Nat}
    (h : ∀ i < min width 8, m'.byte (a + UInt64.ofNat i) = m.byte (a + UInt64.ofNat i)) :
    m'.readWord a width = m.readWord a width :=
  congrArg Word.ofBytes (read_congr h)

end Memory

namespace Convention

/-- How many bytes above the stack pointer of a call its arguments take, the space below them included. -/
def stackArea (c : Convention) (count pointerSize : Nat) : Nat :=
  if count ≤ c.argumentRegisters.length then 0
  else c.shadowSpace.toNat + (count - c.argumentRegisters.length) * pointerSize

theorem store_argumentRegister (arch : Arch) (c : Convention) :
    ∀ name ∈ c.argumentRegisters, ∀ f ∈ arch.layout.field? (Text.lowercase name),
      f.store ≠ arch.stackField.store ∧ f.store ≠ arch.instructionField.store := by
  intro name hname f hf
  have hother : ∀ name ∈ c.argumentRegisters, Text.lowercase name ∉ ["esp", "sp", "rsp", "spl"] ∧
      Text.lowercase name ∉ ["eip", "ip", "rip"] := by
    cases c <;> decide +kernel
  obtain ⟨hstack, hinstruction⟩ := Layout.name_of_field? hf
  exact ⟨fun h => (hother name hname).1 (hstack h), fun h => (hother name hname).2 (hinstruction h)⟩

end Convention

namespace Machine

variable {m : Machine} {c : Convention} {entry : Address} {count i : Nat}

theorem toNat_ofNat_pointerSize (m : Machine) : (UInt64.ofNat m.pointerSize).toNat = m.pointerSize := by
  unfold pointerSize
  cases m.arch <;> rfl

theorem arch_freshRegisters (arch : Arch) (stackPointer : Address) :
    (freshRegisters arch stackPointer).arch = arch := by
  unfold freshRegisters
  dsimp only
  split
  · rename_i r hset
    exact Registers.arch_of_setWide hset
  · rfl

/-! ## A push -/

theorem registers_push (m : Machine) (v : UInt64) :
    (m.push v).registers = m.registers.withSp (m.arch.wrap (m.sp - UInt64.ofNat m.pointerSize)) := rfl

/-- A push moves the stack pointer down by one slot, modulo the pointer width. -/
theorem sp_push (m : Machine) (v : UInt64) :
    (m.push v).sp = m.arch.wrap (m.sp - UInt64.ofNat m.pointerSize) :=
  (Registers.sp_withSp _ _).trans (m.arch.wrap_wrap _)

theorem memory_push (m : Machine) (v : UInt64) :
    (m.push v).memory = m.memory.write (m.push v).sp (Word.toBytes v (min m.pointerSize 8)) := by
  rw [sp_push]
  rfl

/-- Where the stack has room for a slot, a push does not wrap. -/
theorem toNat_sp_push (hsp : m.pointerSize ≤ m.sp.toNat) (v : UInt64) :
    (m.push v).sp.toNat = m.sp.toNat - m.pointerSize := by
  have hle : UInt64.ofNat m.pointerSize ≤ m.sp := by rwa [UInt64.le_iff_toNat_le, toNat_ofNat_pointerSize]
  have hlt : m.sp.toNat < 2 ^ (8 * m.arch.pointerSize) := m.registers.toNat_sp_lt
  rw [sp_push, Arch.toNat_wrap, UInt64.toNat_sub_of_le _ _ hle, toNat_ofNat_pointerSize]
  exact Nat.mod_eq_of_lt (Nat.lt_of_le_of_lt (Nat.sub_le _ _) hlt)

/-- A push leaves what lies at or above the stack pointer as it was. -/
theorem byte_push (hsp : m.pointerSize ≤ m.sp.toNat) (v : UInt64) {x : Address} (hx : m.sp.toNat ≤ x.toNat) :
    (m.push v).memory.byte x = m.memory.byte x := by
  have hlength : (Word.toBytes v (min m.pointerSize 8)).length = min m.pointerSize 8 := Word.length_toBytes v _
  have hdistance : m.pointerSize ≤ (x - (m.push v).sp).toNat := by
    have hpush := toNat_sp_push hsp v
    rw [UInt64.toNat_sub_of_le _ _ (by rw [UInt64.le_iff_toNat_le]; omega)]
    omega
  rw [memory_push, Memory.byte_write_of_le _ (by omega)]

/-- A pop after a push gives the value back, cut to a slot. -/
theorem pop_push (m : Machine) (v : UInt64) :
    (m.push v).pop.1 = Word.ofBytes (Word.toBytes v (min m.pointerSize 8)) := by
  have hlength := Word.length_toBytes v (min m.pointerSize 8)
  have hread := m.memory.read_write (m.push v).sp (Word.toBytes v (min m.pointerSize 8)) (by omega)
  rw [hlength] at hread
  show Word.ofBytes ((m.push v).memory.read (m.push v).sp (min m.pointerSize 8)) = _
  rw [memory_push, hread]

theorem pop_withIp (m : Machine) (a : Address) : (m.withIp a).pop.1 = m.pop.1 := by
  show m.memory.readWord (m.registers.withIp a).sp m.pointerSize = _
  rw [Registers.sp_withIp]
  rfl

/-! ## A function that is entered -/

/-- One slot further down, a function at its entry looks for its stack arguments where the caller does. -/
theorem stackArguments_enter (hentry : entry.toNat < 2 ^ (8 * m.pointerSize)) (hip : m.ip ≠ entry)
    (hsp : m.pointerSize ≤ m.sp.toNat) (v : UInt64) :
    ((m.push v).withIp entry).stackArguments entry c = m.stackArguments entry c := by
  have hhere : ((m.push v).withIp entry).ip = entry := by
    apply UInt64.toNat_inj.1
    refine (congrArg UInt64.toNat (Registers.ip_withIp _ entry)).trans ?_
    rw [Arch.toNat_wrap]
    exact Nat.mod_eq_of_lt hentry
  have hslot : ((m.push v).withIp entry).sp + UInt64.ofNat m.pointerSize = m.sp := by
    apply UInt64.toNat_inj.1
    have hlt := m.sp.toNat_lt
    rw [show ((m.push v).withIp entry).sp = (m.push v).sp from Registers.sp_withIp _ entry, UInt64.toNat_add,
      toNat_sp_push hsp, toNat_ofNat_pointerSize, Nat.sub_add_cancel hsp, Nat.mod_eq_of_lt hlt]
  rw [stackArguments, stackArguments, if_pos hhere, if_neg hip]
  exact congrArg (· + c.shadowSpace) hslot

theorem registerOrZero_enter (v : UInt64) (entry : Address) {name : String} (hname : name ∈ c.argumentRegisters) :
    ((m.push v).withIp entry).registerOrZero name = m.registerOrZero name := by
  have hstore := c.store_argumentRegister m.arch name hname
  have hget : ((m.push v).withIp entry).registers.get name = m.registers.get name :=
    calc ((m.push v).registers.withIp entry).get name
        = (m.push v).registers.get name :=
          Registers.get_writeField (r := (m.push v).registers) (fun f hf => (hstore f hf).2) _
      _ = m.registers.get name := Registers.get_writeField (r := m.registers) (fun f hf => (hstore f hf).1) _
  rw [registerOrZero, registerOrZero, hget]

/-- The slots of the stack arguments lie above the stack pointer. -/
theorem sp_le_slot (harea : m.sp.toNat + c.stackArea count m.pointerSize ≤ 2 ^ (8 * m.pointerSize)) (hip : m.ip ≠ entry)
    (hi : i < count) (hreg : c.argumentRegisters.length ≤ i) {j : Nat} (hj : j < m.pointerSize) :
    m.sp.toNat ≤ (m.stackArguments entry c +
      UInt64.ofNat ((i - c.argumentRegisters.length) * m.pointerSize) + UInt64.ofNat j).toNat := by
  have hwidth : 2 ^ (8 * m.pointerSize) ≤ 2 ^ 64 := by
    unfold pointerSize
    cases m.arch <;> decide
  have hslots : (i - c.argumentRegisters.length) * m.pointerSize + j <
      (count - c.argumentRegisters.length) * m.pointerSize := by
    have := Nat.mul_le_mul_right m.pointerSize
      (show i - c.argumentRegisters.length + 1 ≤ count - c.argumentRegisters.length by omega)
    rw [Nat.add_mul] at this
    omega
  rw [Convention.stackArea, if_neg (by omega)] at harea
  have hbase : (m.sp + c.shadowSpace).toNat = m.sp.toNat + c.shadowSpace.toNat := by
    rw [UInt64.toNat_add, Nat.mod_eq_of_lt (by omega)]
  rw [stackArguments, if_neg hip, add_ofNat_add, toNat_add_of_lt (by omega), hbase]
  omega

/-- Every argument in the area that the caller filled is the one that the caller sees. -/
theorem argument_enter (hentry : entry.toNat < 2 ^ (8 * m.pointerSize)) (hip : m.ip ≠ entry)
    (hsp : m.pointerSize ≤ m.sp.toNat) (harea : m.sp.toNat + c.stackArea count m.pointerSize ≤ 2 ^ (8 * m.pointerSize))
    (hi : i < count) (v : UInt64) :
    ((m.push v).withIp entry).argument entry c i = m.argument entry c i := by
  unfold argument
  cases hreg : c.argumentRegisters[i]? with
  | some name => exact registerOrZero_enter v entry (List.mem_of_getElem? hreg)
  | none =>
    dsimp only
    rw [stackArguments_enter hentry hip hsp]
    apply Memory.readWord_congr
    intro j hj
    apply byte_push hsp
    exact sp_le_slot harea hip hi (List.getElem?_eq_none_iff.1 hreg) (Nat.lt_of_lt_of_le hj (Nat.min_le_left _ _))

/-- A function that is entered, its return address pushed and control at its entry, has the arguments that its caller
sees at the call, if pushing does not pass the bottom of memory and the area of the arguments does not pass the top.
Fewer arguments are the first of them. -/
theorem readArguments_enter (m : Machine) (c : Convention) (returnAddress entry : Address) (count : Nat) :
    (entry.toNat < 2 ^ (8 * m.pointerSize) → m.ip ≠ entry → m.pointerSize ≤ m.sp.toNat →
      m.sp.toNat + c.stackArea count m.pointerSize ≤ 2 ^ (8 * m.pointerSize) →
      ((m.push returnAddress).withIp entry).readArguments entry c count = m.readArguments entry c count) ∧
    ∀ fewer ≤ count, m.readArguments entry c fewer <+: m.readArguments entry c count := by
  constructor
  · intro hentry hip hsp harea
    apply List.map_congr_left
    intro i hi
    exact argument_enter hentry hip hsp harea (List.mem_range.1 hi) returnAddress
  · intro fewer hle
    obtain ⟨more, rfl⟩ := Nat.exists_eq_add_of_le hle
    rw [readArguments, readArguments, List.range_add, List.map_append]
    exact List.prefix_append _ _

/-- With one slot left below its arguments, a function still finds those of its caller. -/
theorem readArguments_enter_lowest :
    let m := Machine.fresh (.empty .x86) { stackPointer := 4 }
    ((m.push 0x1005).withIp 0x2000).readArguments 0x2000 .thiscall 3 = m.readArguments 0x2000 .thiscall 3 ∧
      m.readArguments 0x2000 .thiscall 1 <+: m.readArguments 0x2000 .thiscall 3 := by
  intro m
  obtain ⟨henter, hprefix⟩ := readArguments_enter m .thiscall 0x1005 0x2000 3
  exact ⟨henter (by decide +kernel) (by decide +kernel) (by decide +kernel) (by decide +kernel), hprefix 1 (by decide)⟩

end Machine
end PathReplay
