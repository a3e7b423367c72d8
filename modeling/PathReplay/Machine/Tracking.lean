import PathReplay.Machine.Operand

/-!
# Tracking variables

The operands of an instruction that is about to execute name variables: a memory operand at a named location
or in the frame of the current function, an immediate value or a code address that is a named location.
-/

namespace PathReplay.Machine

/-- The frame slot of the current function that covers a stack address: where it starts, its name and its
size. -/
def frameMember? (m : Machine) (a : Address) : Option (Address × String × UInt64) := do
  let frame ← m.frame
  let f ← m.listing.functionAt? frame.entry
  let distance := (a - frame.sp).toInt64
  let offset := match m.arch with
    | .x86 => distance.toInt32.toInt64
    | .x86_64 => distance
  let slot ← f.frameMember? offset
  return (m.arch.wrap (frame.sp + slot.offset.toUInt64), slot.name, slot.size)

def registerVariable (m : Machine) (a : Address) (name : String) (size : UInt64) : Machine :=
  { m with known := m.known.register a name size }

/-- The machine with the variable of a named location known; `size` is used if the location has none. -/
def trackSymbol? (m : Machine) (a : Address) (size : UInt64) : Option Machine :=
  (m.listing.nameAt? a).map fun name =>
    m.registerVariable a name ((m.listing.symbolSize? a).getD size)

def trackOperand (m : Machine) (o : Operand) : Machine :=
  match o.kind with
  | .register _ => m
  | .immediate value => (m.trackSymbol? value o.size).getD m
  | .near target => (m.trackSymbol? target o.size).getD m
  | .memory r =>
    let a := m.referenceAddress r
    match m.trackSymbol? a o.size with
    | some m => m
    | none =>
      match m.frameMember? a with
      | some (start, name, size) => m.registerVariable start name size
      | none => m

theorem trackSymbol?_eq_some {m m' : Machine} {a : Address} {size : UInt64}
    (h : m.trackSymbol? a size = some m') : ∃ known, m' = { m with known } := by
  obtain ⟨name, -, rfl⟩ := Option.map_eq_some_iff.1 h
  exact ⟨_, rfl⟩

/-- Tracking an operand changes nothing but what is known. -/
theorem trackOperand_eq (m : Machine) (o : Operand) : ∃ known, m.trackOperand o = { m with known } := by
  have hsymbol : ∀ a size, ∃ known, (m.trackSymbol? a size).getD m = { m with known } := by
    intro a size
    cases h : m.trackSymbol? a size with
    | none => exact ⟨m.known, rfl⟩
    | some m' => exact trackSymbol?_eq_some h
  unfold trackOperand
  split
  · exact ⟨m.known, rfl⟩
  · exact hsymbol _ _
  · exact hsymbol _ _
  · dsimp only
    split
    · exact trackSymbol?_eq_some ‹_›
    · split
      · exact ⟨_, rfl⟩
      · exact ⟨m.known, rfl⟩

/-- The machine with the variables of an instruction's operands known. -/
def track (m : Machine) (i : Instruction) : Machine := i.operands.foldl trackOperand m

theorem track_eq (m : Machine) (i : Instruction) : ∃ known, m.track i = { m with known } := by
  unfold track
  induction i.operands generalizing m with
  | nil => exact ⟨m.known, rfl⟩
  | cons o os ih =>
    obtain ⟨known, h⟩ := m.trackOperand_eq o
    rw [List.foldl_cons, h]
    exact ih _

/-- The machine with the variables of the instruction at the instruction pointer known. -/
def trackHere (m : Machine) : Machine :=
  let m := m.enter m.ip
  match m.instruction? with
  | some i => m.track i
  | none => m

/-- Tracking changes nothing but what is known and the current function. -/
theorem trackHere_eq (m : Machine) : ∃ known frame, m.trackHere = { m with known, frame } := by
  have henter : ∃ frame, m.enter m.ip = { m with frame } := by
    unfold enter
    split
    · exact ⟨_, rfl⟩
    · exact ⟨m.frame, rfl⟩
  obtain ⟨frame, henter⟩ := henter
  unfold trackHere
  rw [henter]
  dsimp only
  split
  · rename_i i _
    obtain ⟨known, h⟩ := track_eq { m with frame } i
    exact ⟨known, frame, h⟩
  · exact ⟨m.known, frame, rfl⟩

end PathReplay.Machine
