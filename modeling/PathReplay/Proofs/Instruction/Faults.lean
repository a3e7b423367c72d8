import PathReplay.Proofs.Instruction.Steps

/-!
# What an instruction can fail with

* `Error.isFault` : the causes that lie in the instruction and the registers it names;
* `OnlyFaults` : an effect that fails with nothing else. The steps of an instruction are such effects, and so is what
  is put together from them (`inherited_onlyFaults`);
* `complete_onlyFaults`, `isFault_of_execute` : so it is of every operation and of every instruction.
-/

namespace PathReplay

/-- The cause lies in an instruction or in a register that it names. -/
def Error.isFault : Error → Bool
  | unknownRegister _ | floatRegister _ | invalidInstruction _ => true
  | unsupportedArchitecture _ | unresolvedSignature _ | pathNotFound _ | functionNotFound _ => false

theorem Registers.isFault_of_get {r : Registers} {name : String} {e : Error} (h : r.get name = .error e) :
    e.isFault = true := by
  unfold get getWide FloatStack.word? at h
  dsimp only at h
  repeat' split at h
  all_goals cases h
  all_goals rfl

theorem Machine.isFault_of_setRegister {m : Machine} {name : String} {value : UInt64} {e : Error}
    (h : m.setRegister name value = .error e) : e.isFault = true := by
  unfold setRegister Registers.set Registers.setWide FloatStack.setWord at h
  dsimp only at h
  repeat' split at h
  all_goals cases h
  all_goals rfl

theorem Machine.isFault_of_setOperand {m : Machine} {o : Operand} {value : UInt64} {e : Error}
    (h : m.setOperand o value = .error e) : e.isFault = true := by
  unfold setOperand at h
  split at h
  · exact isFault_of_setRegister h
  · cases h
  · cases h

namespace Exec

variable {α β : Type} {x y : Exec α} {f : α → Exec β}

/-- An effect that fails with nothing but a fault. -/
def OnlyFaults (x : Exec α) : Prop := ∀ m e m', x m = .error e m' → e.isFault = true

theorem onlyFaults_pure (a : α) : OnlyFaults (pure a : Exec α) := by
  intro m e m' h
  cases h

theorem OnlyFaults.bind (hx : OnlyFaults x) (hf : ∀ a, OnlyFaults (f a)) : OnlyFaults (x >>= f) := by
  intro m e m' h
  rw [bind_apply] at h
  split at h
  · exact hf _ _ _ _ h
  · rename_i hrun
    obtain ⟨rfl, -⟩ := EStateM.Result.error.inj h
    exact hx _ _ _ hrun

/-! ## The steps of instructions -/

theorem onlyFaults_view (g : Machine → α) : OnlyFaults (view g) := by
  intro m e m' h
  cases h

theorem onlyFaults_update (g : Machine → Machine) : OnlyFaults (update g) := by
  intro m e m' h
  cases h

theorem onlyFaults_viewOrFail {g : Machine → Except Error α} (hg : ∀ m e, g m = .error e → e.isFault = true) :
    OnlyFaults (viewOrFail g) := by
  intro m e m' h
  unfold viewOrFail at h
  split at h
  · cases h
  · rename_i herr
    obtain ⟨rfl, -⟩ := EStateM.Result.error.inj h
    exact hg m _ herr

theorem onlyFaults_updateOrFail {g : Machine → Except Error Machine}
    (hg : ∀ m e, g m = .error e → e.isFault = true) : OnlyFaults (updateOrFail g) := by
  intro m e m' h
  unfold updateOrFail at h
  split at h
  · cases h
  · rename_i herr
    obtain ⟨rfl, -⟩ := EStateM.Result.error.inj h
    exact hg m _ herr

theorem onlyFaults_setRegister (name : String) (v : UInt64) : OnlyFaults (setRegister name v) :=
  onlyFaults_updateOrFail fun _ _ => Machine.isFault_of_setRegister

/-- What is put together from the steps of an instruction fails with nothing but a fault. -/
theorem inherited_onlyFaults (i : Instruction) : Inherited i fun _ x => OnlyFaults x where
  pure := onlyFaults_pure
  bind := OnlyFaults.bind
  missing := by
    intro α m e m' h
    obtain ⟨rfl, -⟩ := EStateM.Result.error.inj h
    rfl
  view := onlyFaults_view
  register _ := onlyFaults_viewOrFail fun _ _ => Registers.isFault_of_get
  setRegister _ v := onlyFaults_setRegister _ v
  store _ _ := onlyFaults_updateOrFail fun _ _ => Machine.isFault_of_setOperand
  pop := by
    intro m e m' h
    cases h
  update _ _ := onlyFaults_update _

/-! ## Every instruction -/

theorem onlyFaults_call (i : Instruction) : OnlyFaults (call i) := by
  intro m e m' h
  unfold call Machine.call at h
  split at h
  · cases h
  · dsimp only at h
    split at h
    · unfold Machine.callRoutine at h
      dsimp only at h
      split at h
      · cases h
      · rename_i hset
        obtain ⟨rfl, -⟩ := EStateM.Result.error.inj h
        exact Machine.isFault_of_setRegister hset
    · cases h

theorem complete_onlyFaults (i : Instruction) : Complete i fun _ x => OnlyFaults x where
  stepwise := (inherited_onlyFaults i).stepwise
  setRegister := onlyFaults_setRegister
  jump _ := onlyFaults_update _
  call := onlyFaults_call i

end Exec

/-- An instruction fails with nothing but a fault. -/
theorem Machine.isFault_of_execute {a : Address} {m m' : Machine} {e : Error}
    (h : execute a m = .error e m') : e.isFault = true := by
  unfold execute at h
  split at h
  · obtain ⟨rfl, -⟩ := EStateM.Result.error.inj h
    rfl
  · split at h
    · exact (Exec.complete_onlyFaults _).run _ _ _ _ h
    · cases h

end PathReplay
