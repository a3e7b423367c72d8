import PathReplay.Proofs.Instruction.ControlFlow
import PathReplay.Proofs.Instruction.LazyPages

/-!
# No instruction changes the program

* `KeepsProgram` : an effect that leaves the architecture and the listing as they are, also where it fails. It is so of
  the steps of an instruction (`inherited_keepsProgram`) and of calls;
* `complete_keepsProgram`, `Machine.sameProgram_execute` : so it is of every operation and of every instruction;
* `Machine.sameProgram_performAll` : instructions, pushes, pops and queries one after the other act on the program that
  was there at the start.
-/

namespace PathReplay

namespace Machine

variable {m m' : Machine} {i : Instruction}

theorem sameProgram_setRegister {name : String} {v : UInt64} (h : m.setRegister name v = .ok m') :
    m.SameProgram m' := by
  unfold setRegister at h
  cases hset : m.registers.set name v with
  | ok r =>
    rw [hset] at h
    obtain rfl := Except.ok.inj h
    exact ⟨Registers.arch_of_setWide hset, rfl⟩
  | error e =>
    rw [hset] at h
    cases h

theorem sameProgram_setOperand {o : Operand} {v : UInt64} (h : m.setOperand o v = .ok m') : m.SameProgram m' := by
  unfold setOperand at h
  split at h
  · exact sameProgram_setRegister h
  · obtain rfl := Except.ok.inj h
    exact ⟨rfl, rfl⟩
  · obtain rfl := Except.ok.inj h
    exact .refl m

theorem sameProgram_prepare (m : Machine) (a : Address) (i : Instruction) : m.SameProgram (m.prepare a i) :=
  ⟨m.arch_prepare a i, m.listing_prepare a i⟩

theorem sameProgram_releaseArguments (m : Machine) (c : Convention) (count : Nat) :
    m.SameProgram (m.releaseArguments c count) := by
  rw [releaseArguments_eq]
  exact ⟨rfl, rfl⟩

theorem sameProgram_recordCall (m : Machine) (site target : Address) (name : Option String) :
    m.SameProgram (m.recordCall site target name) := by
  unfold recordCall
  cases m.listing.prototype? target with
  | none => exact ⟨rfl, rfl⟩
  | some p =>
    have hrelease := m.sameProgram_releaseArguments (m.effectiveConvention p.convention) p.args.length
    exact ⟨hrelease.arch, hrelease.listing⟩

end Machine

namespace Exec

variable {α β : Type} {x : Exec α} {f : α → Exec β}

/-- An effect that leaves the architecture and the listing as they are, also where it fails. -/
def KeepsProgram (x : Exec α) : Prop := ∀ m : Machine, m.SameProgram (x.after m)

theorem keepsProgram_pure (a : α) : KeepsProgram (pure a : Exec α) := fun m => .refl m

theorem KeepsProgram.bind (hx : KeepsProgram x) (hf : ∀ a, KeepsProgram (f a)) : KeepsProgram (x >>= f) :=
  rel_after_bind .trans hx hf

theorem keepsProgram_viewOrFail (g : Machine → Except Error α) : KeepsProgram (viewOrFail g) := fun m => by
  rw [after_viewOrFail]
  exact .refl m

theorem keepsProgram_updateOrFail {g : Machine → Except Error Machine}
    (hg : ∀ m m', g m = .ok m' → m.SameProgram m') : KeepsProgram (updateOrFail g) := fun m =>
  (after_updateOrFail g m).elim (hg m _) fun h => by
    rw [h]
    exact .refl m

theorem keepsProgram_setRegister (name : String) (v : UInt64) : KeepsProgram (setRegister name v) :=
  keepsProgram_updateOrFail fun _ _ => Machine.sameProgram_setRegister

/-- What is put together from the steps of an instruction leaves the program as it is. -/
theorem inherited_keepsProgram (i : Instruction) : Inherited i fun _ x => KeepsProgram x where
  pure := keepsProgram_pure
  bind := KeepsProgram.bind
  missing m := .refl m
  view _ m := .refl m
  register _ := keepsProgram_viewOrFail _
  setRegister _ := keepsProgram_setRegister _
  store _ _ := keepsProgram_updateOrFail fun _ _ => Machine.sameProgram_setOperand
  pop _ := ⟨rfl, rfl⟩
  update _ hg := hg

/-! ## Every instruction -/

/-- Neither a call that is recorded nor one to an emulated function changes the program. -/
theorem keepsProgram_call (i : Instruction) : KeepsProgram (call i) := by
  intro m
  unfold after call
  cases ho : i.operands with
  | nil =>
    rw [Machine.call, ho]
    exact .refl m
  | cons o rest =>
    rw [Machine.call_eq ho]
    cases h : m.emulated? o with
    | none => exact m.sameProgram_recordCall _ _ _
    | some emulated =>
      obtain ⟨name, e⟩ := emulated
      let c := m.effectiveConvention (some e.convention)
      let args := m.readArguments (m.operandValue o) c e.routine.arity
      obtain ⟨known, memory, hframe⟩ := e.routine.call_frame (LibC.undecorated name) args m
      have hprogram : m.SameProgram (e.routine.call (LibC.undecorated name) args m).2 := by
        rw [hframe]
        exact ⟨rfl, rfl⟩
      dsimp only [Machine.callRoutine]
      rw [Machine.setRegister_resultRegister]
      refine hprogram.trans (.trans ?_ (Machine.sameProgram_releaseArguments _ c e.routine.arity))
      exact ⟨rfl, rfl⟩

theorem complete_keepsProgram (i : Instruction) : Complete i fun _ x => KeepsProgram x where
  stepwise := (inherited_keepsProgram i).stepwise
  setRegister := keepsProgram_setRegister
  jump _ _ := ⟨rfl, rfl⟩
  call := keepsProgram_call i

end Exec

namespace Machine

/-- An instruction leaves the program as it is, also one that fails. -/
theorem sameProgram_execute (m : Machine) (a : Address) : m.SameProgram ((execute a).after m) := by
  unfold Exec.after execute
  cases hi : m.listing.decode? a with
  | none => exact .refl m
  | some i =>
    dsimp only
    cases Operation.ofMnemonic? i.mnemonic with
    | none => exact m.sameProgram_prepare a i
    | some op => exact (m.sameProgram_prepare a i).trans ((Exec.complete_keepsProgram i).run op _)

theorem snd_perform_execute (m : Machine) (a : Address) : (m.perform (.execute a)).2 = (execute a).after m := by
  unfold Exec.after
  simp only [perform]
  cases execute a m <;> rfl

theorem sameProgram_perform (m : Machine) (action : Action) : m.SameProgram (m.perform action).2 := by
  cases action with
  | execute a =>
    rw [snd_perform_execute]
    exact m.sameProgram_execute a
  | push value => exact ⟨rfl, rfl⟩
  | pop => exact ⟨rfl, rfl⟩
  | arguments function count => exact .refl m

theorem sameProgram_performAll (actions : List Action) (m : Machine) : m.SameProgram (m.performAll actions).2 := by
  induction actions generalizing m with
  | nil => exact .refl m
  | cons action rest ih => exact (m.sameProgram_perform action).trans (ih _)

end Machine
end PathReplay
