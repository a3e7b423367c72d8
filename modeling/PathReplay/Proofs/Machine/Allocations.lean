import PathReplay.Proofs.Instruction.ControlFlow
import PathReplay.Proofs.Memory.HeapGrowth

/-!
# Allocations by emulated calls

* `Routine.request?` : what an emulated function asks of the heap; `Routine.heap_run`, `Routine.fst_run` : it does
  nothing else to the heap, and its result is the address that it is given;
* `Registers.get_withResult` : the result register, cut to its width;
* `execute_emulated` : a call to an emulated function, from the heap to the result register;
* `Allocating` : a run of emulated calls with what they claim of the heap; `Allocating.next_le` : the heap grows by no
  more;
* `execute_request` : a call that asks for memory leaves the address of a live block of that size in the result
  register, as long as what was claimed keeps the heap within the pointer width.
-/

namespace PathReplay

namespace LibC

variable {m : Machine} {unit : Nat} {args : List UInt64} {r : Routine}

def Routine.request? (r : Routine) (unit : Nat) (args : List UInt64) (m : Machine) : Option Heap.Op :=
  let a := args.getD 0 0
  let b := args.getD 1 0
  match r with
  | malloc => some (.alloc a)
  | calloc => some (.alloc (Word.saturatingMul a b))
  | realloc => some (.realloc a b)
  | strdup => some (.alloc (UInt64.ofNat ((m.readString a unit).length + unit)))
  | strndup => some (.alloc (UInt64.ofNat ((m.readUnits a unit b).length + unit)))
  | free => some (.free a)
  | _ => none

theorem heap_duplicate (m : Machine) (data : Bytes) (unit : Nat) :
    (duplicate m data unit).2.memory.heap = m.memory.heap.step (.alloc (UInt64.ofNat (data.length + unit))) :=
  Memory.heap_write _ _ _

/-- An emulated function does nothing to the heap but what it asks for. -/
theorem Routine.heap_run (r : Routine) (unit : Nat) (args : List UInt64) (m : Machine) :
    (r.run unit args m).2.memory.heap = (r.request? unit args m).elim m.memory.heap m.memory.heap.step := by
  cases r with
  | malloc | calloc | free | strlen => rfl
  | realloc => exact Memory.heap_realloc _ _ _
  | strdup | strndup => exact heap_duplicate _ _ _
  | _ => exact Memory.heap_write _ _ _

/-- Its result is then the address that it is given. -/
theorem Routine.fst_run {op : Heap.Op} (h : r.request? unit args m = some op) :
    (r.run unit args m).1 = m.memory.heap.place op := by
  cases r with
  | malloc | calloc | free | strdup | strndup =>
    obtain rfl := Option.some.inj h
    rfl
  | realloc =>
    obtain rfl := Option.some.inj h
    exact Memory.fst_realloc _ _ _
  | _ => cases h

end LibC

namespace Registers

/-- The result register gives back what was left in it, cut to the pointer width. -/
theorem get_withResult (r : Registers) (v : UInt64) :
    (r.withResult v).get r.arch.resultRegister = .ok (r.arch.wrap v) := by
  refine (get_of_field? (r := r.withResult v) r.arch.field?_resultRegister).trans (congrArg Except.ok ?_)
  apply UInt64.toNat_inj.1
  have hbits : r.arch.resultField.bits = 8 * r.arch.pointerSize := by cases r.arch <;> rfl
  rw [Arch.toNat_wrap, ← hbits]
  exact toNat_wordAt_writeField (by cases r.arch <;> decide) v

theorem get_resultRegister_withSp (r : Registers) (a : Address) :
    (r.withSp a).get r.arch.resultRegister = r.get r.arch.resultRegister := by
  refine get_writeField (fun g hg => ?_) _
  obtain rfl := Option.some.inj (r.arch.field?_resultRegister.symm.trans hg)
  cases r.arch <;> decide

end Registers

namespace Machine

variable {m m₀ : Machine} {a : Address} {i : Instruction} {o : Operand} {rest : List Operand} {op : Heap.Op}
  {name : String} {e : LibC.Entry} {total : Nat} {n : UInt64}

/-- What a call to an operand asks of the heap. -/
def request? (m : Machine) (o : Operand) : Option Heap.Op :=
  match m.emulated? o with
  | some (name, e) =>
    e.routine.request? (LibC.unitOf (LibC.undecorated name))
      (m.readArguments (m.operandValue o) (m.effectiveConvention (some e.convention)) e.routine.arity) m
  | none => none

/-- A call to an emulated function does to the heap what the function asks for, and leaves the address that it is given
in the result register, cut to the pointer width. -/
theorem execute_emulated (hi : m.listing.decode? a = some i) (hcall : i.isCall = true) (ho : i.operands = o :: rest)
    (he : (m.prepare a i).emulated? o = some (name, e)) :
    ∃ m', execute a m = .ok () m' ∧ m'.arch = m.arch ∧
      m'.memory.heap = ((m.prepare a i).request? o).elim m.memory.heap m.memory.heap.step ∧
      ∀ op, (m.prepare a i).request? o = some op →
        m'.registers.get m.arch.resultRegister = .ok (m.arch.wrap (m.memory.heap.place op)) := by
  have hmemory := m.memory_prepare a i
  have harch := m.arch_prepare a i
  obtain ⟨m', hok, hregs, hmem, -⟩ := call_emulated ho he
  have hrequest : (m.prepare a i).request? o = e.routine.request? (LibC.unitOf (LibC.undecorated name))
      ((m.prepare a i).readArguments ((m.prepare a i).operandValue o)
        ((m.prepare a i).effectiveConvention (some e.convention)) e.routine.arity) (m.prepare a i) := by
    unfold request?
    rw [he]
  refine ⟨m', (execute_of_isCall hi hcall).trans hok, ?_, ?_, fun op hasked => ?_⟩
  · rw [arch, hregs]
    exact harch
  · rw [hmem, LibC.Routine.call, LibC.Routine.heap_run, ← hrequest, hmemory]
  · rw [hregs, ← harch]
    refine (Registers.get_resultRegister_withSp _ _).trans ((Registers.get_withResult _ _).trans ?_)
    rw [LibC.Routine.call, LibC.Routine.fst_run (hrequest ▸ hasked), hmemory]
    rfl

/-! ## Runs -/

/-- A run of calls to emulated functions, with the bytes that they claim of the heap in all. Between two calls anything
may happen that leaves the heap alone. -/
inductive Allocating (m₀ : Machine) : Nat → Machine → Prop where
  | start : Allocating m₀ 0 m₀
  | between {total : Nat} {m m' : Machine} : Allocating m₀ total m → m'.arch = m.arch →
      m'.memory.heap = m.memory.heap → Allocating m₀ total m'
  | call {total : Nat} {m m' : Machine} {a : Address} {i : Instruction} {o : Operand} {rest : List Operand} :
      Allocating m₀ total m → m.listing.decode? a = some i → i.isCall = true → i.operands = o :: rest →
      ((m.prepare a i).emulated? o).isSome = true → execute a m = .ok () m' →
      Allocating m₀ (total + (((m.prepare a i).request? o).map (Heap.Op.claims m.memory.heap.slack)).getD 0) m'

theorem Allocating.arch_eq (hrun : Allocating m₀ total m) : m.arch = m₀.arch := by
  induction hrun with
  | start => rfl
  | between _ harch _ ih => exact harch.trans ih
  | call _ hi hcall ho he hok ih =>
    obtain ⟨⟨name, e⟩, he⟩ := Option.isSome_iff_exists.1 he
    obtain ⟨m', hok', harch, -⟩ := execute_emulated hi hcall ho he
    cases hok.symm.trans hok'
    exact harch.trans ih

/-- In a run, blocks stay below the next free place, and that moves up by what is claimed at most. -/
theorem Allocating.next_le (hrun : Allocating m₀ total m) (hb : m₀.memory.heap.Below) :
    m.memory.heap.Below ∧ m.memory.heap.next.toNat ≤ m₀.memory.heap.next.toNat + total := by
  induction hrun with
  | start => exact ⟨hb, Nat.le_refl _⟩
  | between _ _ hheap ih => exact hheap ▸ ih
  | @call total m _ a i o _ _ hi hcall ho he hok ih =>
    obtain ⟨⟨name, e⟩, he⟩ := Option.isSome_iff_exists.1 he
    obtain ⟨m', hok', -, hheap, -⟩ := execute_emulated hi hcall ho he
    cases hok.symm.trans hok'
    rw [hheap]
    cases (m.prepare a i).request? o with
    | none => exact ih
    | some op =>
      have hstep := ih.1.next_step_le op
      refine ⟨ih.1.step op, ?_⟩
      show (m.memory.heap.step op).next.toNat ≤ _ + (total + op.claims m.memory.heap.slack)
      omega

/-- After any run of emulated calls, a call to a function that asks for some bytes succeeds. A block of that size is
then live at the address that the function was given, and the result register has this address, cut to the pointer
width. It is the address itself where pointers have eight bytes; where they have four, as long as the heap began, in
memory that a program can have, below the top of the address space by more than what was claimed since. -/
theorem execute_request (hrun : Allocating m₀ total m) (hi : m.listing.decode? a = some i) (hcall : i.isCall = true)
    (ho : i.operands = o :: rest) (hop : (m.prepare a i).request? o = some op) (hn : op.size? = some n) (hpos : n ≠ 0) :
    ∃ m' v, execute a m = .ok () m' ∧ m'.registers.get m.arch.resultRegister = .ok v ∧
      m'.memory.heap.sizeOf? (m.memory.heap.place op) = some n ∧ v = m.arch.wrap (m.memory.heap.place op) ∧
      (m₀.arch = .x86_64 ∨
        m₀.memory.Reached ∧ m₀.memory.heap.next.toNat + total < 2 ^ (8 * m₀.pointerSize) →
        m'.memory.heap.sizeOf? v = some n) := by
  obtain ⟨name, e, he⟩ : ∃ name e, (m.prepare a i).emulated? o = some (name, e) := by
    unfold request? at hop
    split at hop
    · rename_i name e he
      exact ⟨name, e, he⟩
    · cases hop
  obtain ⟨m', hok, -, hheap, hresult⟩ := execute_emulated hi hcall ho he
  have hlive : m'.memory.heap.sizeOf? (m.memory.heap.place op) = some n := by
    rw [hheap, hop]
    exact Heap.live_place hn hpos
  refine ⟨m', _, hok, hresult op hop, hlive, rfl, fun hfits => ?_⟩
  have hwrap : m.arch.wrap (m.memory.heap.place op) = m.memory.heap.place op := by
    rw [hrun.arch_eq]
    rcases hfits with harch | ⟨hreached, hlt⟩
    · rw [harch, Arch.wrap_x86_64]
    · obtain ⟨hb, hle⟩ := hrun.next_le hreached.heap_below
      have hplace := UInt64.le_iff_toNat_le.1 (hb.place_le_next op)
      exact Arch.wrap_of_lt (Nat.lt_of_le_of_lt (Nat.le_trans hplace hle) hlt)
  rw [hwrap]
  exact hlive

/-- A program of one call to an allocating function, with its argument on the stack. -/
def callingMalloc (argument : Array UInt8) : Machine :=
  let i := Instruction.of 0x1000 "call" 5 [.ofNear "malloc" 4 0x2000]
  let stack : Segment := ⟨"stack", 0x8000, 4, some argument⟩
  let symbols := (∅ : Std.ExtTreeMap Address SymbolRecord compare).insert 0x2000 ⟨"malloc", none⟩
  fresh { (Listing.empty .x86).addInstruction i with segments := [stack], symbols } { stackPointer := 0x8000 }

/-- The second of two blocks is live at the address in the result register. -/
theorem execute_request_again :
    let m := callingMalloc #[0x10]
    let m₁ := (execute 0x1000).after m
    ∃ m₂ v, execute 0x1000 m₁ = .ok () m₂ ∧ m₂.registers.get "eax" = .ok v ∧ m₂.memory.heap.sizeOf? v = some 0x10 := by
  intro m m₁
  let o := Operand.ofNear "malloc" 4 0x2000
  let i := Instruction.of 0x1000 "call" 5 [o]
  have hi : m.listing.decode? 0x1000 = some i := by decide +kernel
  have he : (m.prepare 0x1000 i).emulated? o = some ("malloc", ⟨.malloc, .cdecl⟩) := by decide +kernel
  have hcall : i.isCall = true := by decide +kernel
  obtain ⟨m', hok, -⟩ := execute_emulated hi hcall rfl he
  have hfirst : execute 0x1000 m = .ok () m₁ := by
    have hafter : m₁ = m' := by
      show (execute 0x1000).after m = m'
      rw [Exec.after, hok]
    rw [hafter, hok]
  have hrun := Allocating.start.call hi hcall rfl (Option.isSome_of_eq_some he) hfirst
  have hreached : m.memory.Reached := .limit _ (.load _ _ _)
  have hi₁ : m₁.listing.decode? 0x1000 = some i := by decide +kernel
  have hasked : (m₁.prepare 0x1000 i).request? o = some (.alloc 0x10) := by decide +kernel
  obtain ⟨m₂, v, hsecond, hresult, -, -, hlive⟩ := execute_request hrun hi₁ hcall rfl hasked rfl (by decide)
  have harch : m₁.arch = .x86 := by decide +kernel
  rw [harch] at hresult
  exact ⟨m₂, v, hsecond, hresult, hlive (.inr ⟨hreached, by decide +kernel⟩)⟩

/-- With four-byte pointers, the block after one of nearly the whole address space is not at the address in the result
register. -/
theorem execute_request_beyond :
    let m := callingMalloc #[0xF0, 0xFF, 0xFF, 0xFF]
    let m₂ := (execute 0x1000).after ((execute 0x1000).after m)
    (m₂.registers.get "eax").toOption = some 0x20000F0 ∧ m₂.memory.heap.sizeOf? 0x20000F0 = none ∧
      m₂.memory.heap.sizeOf? 0x1020000F0 = some 0xFFFFFFF0 := by
  decide +kernel

end Machine
end PathReplay
