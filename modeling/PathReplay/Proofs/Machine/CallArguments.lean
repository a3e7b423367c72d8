import PathReplay.Proofs.Instruction.Addressing

/-!
# The arguments of a call, shown and recorded

The arguments of a call are shown with control at the call, and recorded with control at the next instruction.

* `argumentsFrom` : arguments with those on the stack a number of slots above the stack pointer;
  `readArguments_eq` : one slot if control is at the entry of the function;
* `resolveFunction_here`, `functionArguments_eq`, `values_argumentsOf` : what is shown at a call;
* `functionArguments_prepare` : what is recorded;
* `execute_call_arguments` : it is what is recorded, unless the function starts at just one of the two instructions.
-/

namespace PathReplay.Machine

variable {m : Machine} {i : Instruction} {o : Operand} {rest : List Operand} {f : FunctionRecord} {proto : Prototype}

/-- The first `count` arguments of a convention, with those on the stack some slots above the stack pointer. -/
def argumentsFrom (m : Machine) (c : Convention) (slots count : Nat) : List UInt64 :=
  (List.range count).map fun i =>
    match c.argumentRegisters[i]? with
    | some name => m.registerOrZero name
    | none =>
      m.readWord (m.sp + UInt64.ofNat (slots * m.pointerSize) + c.shadowSpace +
        UInt64.ofNat ((i - c.argumentRegisters.length) * m.pointerSize)) m.pointerSize

theorem readArguments_eq (m : Machine) (entry : Address) (c : Convention) (count : Nat) :
    m.readArguments entry c count = m.argumentsFrom c (if m.ip = entry then 1 else 0) count := by
  have hbase : m.stackArguments entry c =
      m.sp + UInt64.ofNat ((if m.ip = entry then 1 else 0) * m.pointerSize) + c.shadowSpace := by
    unfold stackArguments
    split
    · rw [Nat.one_mul]
    · rw [Nat.zero_mul]
      show _ = m.sp + 0 + c.shadowSpace
      rw [UInt64.add_zero]
  unfold readArguments argumentsFrom
  apply List.map_congr_left
  intro k _
  unfold argument
  cases c.argumentRegisters[k]? with
  | some name => rfl
  | none => exact congrArg (fun base => m.readWord (base + _) m.pointerSize) hbase

/-- As long as there are registers for all arguments, it does not matter where the stack is. -/
theorem argumentsFrom_of_le {c : Convention} {count : Nat} (h : count ≤ c.argumentRegisters.length) (k l : Nat) :
    m.argumentsFrom c k count = m.argumentsFrom c l count := by
  apply List.map_congr_left
  intro i hi
  have hlt : i < c.argumentRegisters.length := Nat.lt_of_lt_of_le (List.mem_range.1 hi) h
  rw [List.getElem?_eq_getElem hlt]

theorem argumentsFrom_prepare (m : Machine) (a : Address) (i : Instruction) (c : Convention) (slots count : Nat) :
    (m.prepare a i).argumentsFrom c slots count = m.argumentsFrom c slots count := by
  have hregister : ∀ name ∈ c.argumentRegisters, (m.prepare a i).registerOrZero name = m.registerOrZero name := by
    intro name hname
    have hget : (m.prepare a i).registers.get name = m.registers.get name := by
      rw [registers_prepare]
      exact Registers.get_writeField (fun f hf => (c.store_argumentRegister m.arch name hname f hf).2) _
    rw [registerOrZero, registerOrZero, hget]
  apply List.map_congr_left
  intro k _
  split
  · rename_i hname
    exact hregister _ (List.mem_of_getElem? hname)
  · rw [readWord, memory_prepare, sp_prepare, pointerSize, arch_prepare]
    rfl

/-! ## What is shown -/

/-- With control at a call, a query is about the function that is called. -/
theorem resolveFunction_here (hi : m.listing.decode? m.ip = some i) (hcall : i.isCall = true)
    (ho : i.operands = o :: rest) (hf : m.listing.functionAt? (m.operandValue o) = some f) :
    m.resolveFunction none = f.entry := by
  unfold resolveFunction instruction?
  rw [hi]
  dsimp only
  rw [hcall, ho]
  dsimp only
  rw [hf]

theorem functionArguments_eq {a : Option Address} (hf : m.resolveFunction a = f.entry)
    (hproto : m.listing.prototype? f.entry = some proto) :
    m.functionArguments a none =
      .ok (m.readArguments f.entry (m.effectiveConvention proto.convention) proto.args.length) := by
  unfold functionArguments
  dsimp only
  rw [hf, hproto]
  rfl

theorem functionSignature_eq {a : Option Address} (hf : m.resolveFunction a = f.entry)
    (hproto : m.listing.prototype? f.entry = some proto) :
    m.functionSignature a none =
      .ok ⟨f.entry, proto.name, proto.returnType, m.effectiveConvention proto.convention, proto.args⟩ := by
  unfold functionSignature
  dsimp only
  rw [hf, hproto]

theorem values_argumentsOf (m : Machine) (s : Signature) :
    (m.argumentsOf s).map Argument.value = m.readArguments s.entry s.convention s.args.length := by
  unfold argumentsOf
  rw [List.map_map]
  exact List.map_snd_zip (by rw [length_readArguments])

/-! ## What is recorded -/

theorem emulated?_prepare (hrel : o.isRelative = false) (m : Machine) (a : Address) (i : Instruction) :
    (m.prepare a i).emulated? o = m.emulated? o := by
  unfold emulated? targetName?
  rw [operandAddress?_prepare hrel, operandValue_prepare hrel, listing_prepare]

theorem resolveFunction_some {a : Address} (hf : m.listing.functionAt? a = some f) :
    m.resolveFunction (some a) = f.entry := by
  unfold resolveFunction
  dsimp only
  rw [hf]

/-- When a call takes effect, control has gone on to the next instruction. -/
theorem functionArguments_prepare (hrel : o.isRelative = false)
    (hf : m.listing.functionAt? (m.operandValue o) = some f) (hproto : m.listing.prototype? f.entry = some proto)
    (a : Address) (i : Instruction) :
    (m.prepare a i).functionArguments (some ((m.prepare a i).operandValue o)) none =
      .ok (m.argumentsFrom (m.effectiveConvention proto.convention) (if m.arch.wrap i.next = f.entry then 1 else 0)
        proto.args.length) := by
  have hresolve : (m.prepare a i).resolveFunction (some ((m.prepare a i).operandValue o)) = f.entry := by
    apply resolveFunction_some
    rw [listing_prepare, operandValue_prepare hrel, hf]
  have hproto' : (m.prepare a i).listing.prototype? f.entry = some proto := by rw [listing_prepare, hproto]
  rw [functionArguments_eq hresolve hproto', readArguments_eq, argumentsFrom_prepare, ip_prepare, effectiveConvention,
    arch_prepare]
  rfl

/-- A call shows the arguments of the function that it calls as the signature there has them, with those on the stack
above the stack pointer, or one slot further up if the function starts at the call. The call is recorded with these
arguments, but one slot further up if the function starts at the next instruction. So the two are the same if the
function starts at neither or both, or has no argument on the stack. -/
theorem execute_call_arguments (hi : m.listing.decode? m.ip = some i) (hcall : i.isCall = true)
    (ho : i.operands = o :: rest) (hrel : o.isRelative = false) (hname : m.emulated? o = none)
    (hf : m.listing.functionAt? (m.operandValue o) = some f)
    (hproto : m.listing.prototype? f.entry = some proto) :
    let c := m.effectiveConvention proto.convention
    let count := proto.args.length
    ∃ m' call shown signature, execute m.ip m = .ok () m' ∧ m'.calls[i.address]? = some call ∧
      m.functionArguments none none = .ok shown ∧
      m.functionSignature none none = .ok signature ∧ (m.argumentsOf signature).map Argument.value = shown ∧
      shown = m.argumentsFrom c (if m.ip = f.entry then 1 else 0) count ∧
      call.args = m.argumentsFrom c (if m.arch.wrap i.next = f.entry then 1 else 0) count ∧
      ((m.ip = f.entry ↔ m.arch.wrap i.next = f.entry) ∨ count ≤ c.argumentRegisters.length → call.args = shown) := by
  intro c count
  have hresolve := resolveFunction_here hi hcall ho hf
  obtain ⟨m', hok, -, -, hcalls⟩ := call_recorded ho ((emulated?_prepare hrel m m.ip i).trans hname)
  obtain ⟨call, hrecorded, hargs⟩ : ∃ call, m'.calls[i.address]? = some call ∧
      call.args = m.argumentsFrom c (if m.arch.wrap i.next = f.entry then 1 else 0) count := by
    rw [hcalls, Std.ExtTreeMap.getElem?_insert_self, functionArguments_prepare hrel hf hproto]
    exact ⟨_, rfl, rfl⟩
  refine ⟨m', call, _, _, (execute_of_isCall hi hcall).trans hok, hrecorded, functionArguments_eq hresolve hproto,
    functionSignature_eq hresolve hproto, values_argumentsOf _ _, readArguments_eq .., hargs, fun hsame => ?_⟩
  rw [hargs, readArguments_eq]
  rcases hsame with hentry | hregisters
  · simp only [hentry]
    rfl
  · exact argumentsFrom_of_le hregisters _ _

/-- A function that is called from elsewhere: its argument is recorded as it is shown. -/
theorem execute_call_arguments_far :
    let i := Instruction.of 0x1000 "call" 5 [.ofNear "f" 4 0x2000]
    let f : FunctionRecord := ⟨0x2000, 0x2010, [], [], some ⟨"f", "int", some .cdecl, [⟨"int", "a"⟩]⟩⟩
    let m := (Machine.fresh { (Listing.empty .x86).addInstruction i with functions := [f] } {}).withIp 0x1000
    ∃ m' call, execute m.ip m = .ok () m' ∧ m'.calls[(0x1000 : Address)]? = some call ∧
      m.functionArguments none none = .ok call.args := by
  intro i f m
  have hproto : m.listing.prototype? f.entry = some ⟨"f", "int", some .cdecl, [⟨"int", "a"⟩]⟩ := by decide +kernel
  obtain ⟨m', call, shown, -, hok, hcall, hshown, -, -, -, -, hsame⟩ :=
    execute_call_arguments (m := m) (i := i) (f := f) (by decide +kernel) (by decide +kernel) rfl rfl
      (by decide +kernel) (by decide +kernel) hproto
  exact ⟨m', call, hok, hcall, hsame (.inl (by decide +kernel)) ▸ hshown⟩

/-- A function that starts right after the call: its argument is recorded as the word above the one that is shown. -/
theorem execute_call_arguments_next :
    let i := Instruction.of 0x1000 "call" 5 [.ofNear "f" 4 0x1005]
    let f : FunctionRecord := ⟨0x1005, 0x1010, [], [], some ⟨"f", "int", some .cdecl, [⟨"int", "a"⟩]⟩⟩
    let stack : Segment := ⟨"stack", 0x8000, 8, some #[1, 0, 0, 0, 2, 0, 0, 0]⟩
    let listing : Listing := { (Listing.empty .x86).addInstruction i with functions := [f], segments := [stack] }
    let m := (Machine.fresh listing { stackPointer := 0x8000 }).withIp 0x1000
    (m.functionArguments none none).toOption = some [1] ∧
      ((execute m.ip).after m).calls[(0x1000 : Address)]?.map Call.args = some [2] := by
  decide +kernel

end PathReplay.Machine
