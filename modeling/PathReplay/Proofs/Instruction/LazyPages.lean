import PathReplay.Proofs.Instruction.Steps

/-!
# Which pages are materialised cannot be told

* `Oblivious` : an effect that succeeds or fails alike on machines that agree, and leaves machines that agree. The
  steps of an instruction are such effects, and so is what is put together from them (`stepwise_oblivious`);
* `complete_oblivious`, `Machine.oblivious_execute` : so it is of every operation and of every instruction;
* `Machine.perform`, `Machine.performAll` : instructions, pushes, pops and queries one after the other;
* `Machine.performAll_agrees` : machines that agree answer them alike and agree in the end.
-/

namespace PathReplay

open Machine (SameOutcome)

namespace Exec

variable {α β : Type} {x : Exec α} {f : α → Exec β}

/-- An effect that cannot tell machines that agree from each other. -/
def Oblivious (x : Exec α) : Prop := ∀ m m', m.Agrees m' → SameOutcome (x m) (x m')

theorem oblivious_pure (a : α) : Oblivious (pure a : Exec α) := fun _ _ h => .ok a h

theorem Oblivious.bind (hx : Oblivious x) (hf : ∀ a, Oblivious (f a)) : Oblivious (x >>= f) := by
  intro m m' h
  have hrun := hx m m' h
  rw [bind_apply, bind_apply]
  generalize x m = r at hrun ⊢
  generalize x m' = r' at hrun ⊢
  cases hrun with
  | ok a hn => exact hf a _ _ hn
  | error e hn => exact .error e hn

/-! ## The steps of instructions -/

theorem oblivious_view {g : Machine → α} (hg : ∀ m m', m.Agrees m' → g m' = g m) : Oblivious (view g) := by
  intro m m' h
  rw [view, view, hg m m' h]
  exact .ok _ h

theorem oblivious_update {g : Machine → Machine} (hg : ∀ m m', m.Agrees m' → (g m).Agrees (g m')) :
    Oblivious (update g) := fun m m' h => .ok () (hg m m' h)

theorem oblivious_updateOrFail {g : Machine → Except Error Machine}
    (hg : ∀ m m', m.Agrees m' → Machine.SameChange (g m) (g m')) : Oblivious (updateOrFail g) := by
  intro m m' h
  have hchange := hg m m' h
  unfold updateOrFail
  generalize g m = r at hchange ⊢
  generalize g m' = r' at hchange ⊢
  cases hchange with
  | ok hn => exact .ok () hn
  | error e => exact .error e h

theorem oblivious_register (name : String) : Oblivious (register name) := by
  intro m m' h
  unfold register viewOrFail
  dsimp only
  rw [h.registers]
  split
  · exact .ok _ h
  · exact .error _ h

theorem oblivious_setRegister (name : String) (v : UInt64) : Oblivious (setRegister name v) :=
  oblivious_updateOrFail fun _ _ h => h.setRegister name v

theorem oblivious_pop : Oblivious pop := by
  intro m m' h
  obtain ⟨hv, hn⟩ := h.pop
  show SameOutcome (.ok m.pop.1 m.pop.2) (.ok m'.pop.1 m'.pop.2)
  rw [hv]
  exact .ok _ hn

theorem oblivious_jump (target : Address) : Oblivious (jump target) := oblivious_update fun _ _ h => h.withIp target

/-- What is put together from the steps of an instruction cannot tell machines that agree from each other. -/
theorem stepwise_oblivious (i : Instruction) : Stepwise i fun _ x => Oblivious x where
  pure := oblivious_pure
  bind := Oblivious.bind
  missing := fun _ _ h => .error _ h
  view := oblivious_view
  register := oblivious_register
  setRegister _ v := oblivious_setRegister _ v
  store _ v := oblivious_updateOrFail fun _ _ h => h.setOperand _ v
  pop := oblivious_pop
  update _ _ hg := oblivious_update hg

/-! ## Every instruction -/

theorem oblivious_call (i : Instruction) : Oblivious (call i) := fun _ _ h => h.call i

theorem complete_oblivious (i : Instruction) : Complete i fun _ x => Oblivious x where
  stepwise := stepwise_oblivious i
  setRegister := oblivious_setRegister
  jump := oblivious_jump
  call := oblivious_call i

end Exec

namespace Machine

variable {m m' : Machine}

/-- An instruction cannot tell machines that agree from each other. -/
theorem oblivious_execute (a : Address) : Exec.Oblivious (execute a) := by
  intro m m' h
  unfold execute
  rw [h.listing]
  split
  · exact .error _ h
  · rename_i i _
    split
    · exact (Exec.complete_oblivious i).run _ _ _ (h.prepare a i)
    · exact .ok () (h.prepare a i)

/-! ## Runs -/

/-- What a machine is asked to do. -/
inductive Action where
  | execute (a : Address)
  | push (value : UInt64)
  | pop
  /-- The arguments of a function: at an address or the current one, as many as asked for or as it declares. -/
  | arguments (function : Option Address) (count : Option Nat)

inductive Answer where
  | executed (result : Except Error Unit)
  | pushed
  | popped (value : UInt64)
  | arguments (result : Except Error (List UInt64))

/-- The answer to an action, and the machine after it. An instruction that fails leaves the machine as it was when it
failed. -/
def perform (m : Machine) : Action → Answer × Machine
  | .execute a =>
    match execute a m with
    | .ok () n => (.executed (.ok ()), n)
    | .error e n => (.executed (.error e), n)
  | .push value => (.pushed, m.push value)
  | .pop => (.popped m.pop.1, m.pop.2)
  | .arguments function count => (.arguments (m.functionArguments function count), m)

/-- The answers to actions one after the other, and the machine after them. -/
def performAll (m : Machine) : List Action → List Answer × Machine
  | [] => ([], m)
  | action :: rest =>
    let (answer, n) := m.perform action
    let (answers, n) := n.performAll rest
    (answer :: answers, n)

/-- One action. -/
theorem Agrees.perform (h : m.Agrees m') (action : Action) :
    (m'.perform action).1 = (m.perform action).1 ∧ (m.perform action).2.Agrees (m'.perform action).2 := by
  cases action with
  | execute a =>
    have hrun := oblivious_execute a m m' h
    simp only [Machine.perform]
    generalize Machine.execute a m = r at hrun ⊢
    generalize Machine.execute a m' = r' at hrun ⊢
    cases hrun with
    | ok x hn => exact ⟨rfl, hn⟩
    | error e hn => exact ⟨rfl, hn⟩
  | push value => exact ⟨rfl, h.push value⟩
  | pop => exact ⟨congrArg Answer.popped h.pop.1, h.pop.2⟩
  | arguments function count => exact ⟨congrArg Answer.arguments (h.functionArguments function count), h⟩

/-- Machines that are equal but for the materialised pages of their memories, and read alike, answer every sequence
of actions alike, and in the end they are again equal but for materialised pages, and read alike. -/
theorem performAll_agrees (h : m.Agrees m') (actions : List Action) :
    (m'.performAll actions).1 = (m.performAll actions).1 ∧
      (m.performAll actions).2.Agrees (m'.performAll actions).2 := by
  induction actions generalizing m m' with
  | nil => exact ⟨rfl, h⟩
  | cons action rest ih =>
    obtain ⟨hanswer, hnext⟩ := h.perform action
    obtain ⟨hanswers, hlast⟩ := ih hnext
    refine ⟨?_, hlast⟩
    show (m'.perform action).1 :: ((m'.perform action).2.performAll rest).1 =
      (m.perform action).1 :: ((m.perform action).2.performAll rest).1
    rw [hanswer, hanswers]

/-- A machine that loads a word from a segment, with the segment's page materialised and without. -/
theorem performAll_load_materialised :
    let segment : Segment := ⟨"data", 0x3000, 0x10, some #[7, 1]⟩
    let load := Instruction.of 0x1000 "mov" 6 [.ofRegister "eax" 4, .ofMemory "ds:3000h" 4 none 0x3000]
    let m := fresh ({ Listing.empty .x86 with segments := [segment] }.addInstruction load) {}
    let m' := { m with memory := m.memory.writeChunk 0x3000 [] }
    let actions : List Action := [.push 5, .execute 0x1000, .pop, .execute 0x2000, .arguments none (some 2)]
    m.memory.pages[(0x3000 : Address)]? = none ∧ m'.memory.pages[(0x3000 : Address)]? ≠ none ∧ m.Agrees m' ∧
      (m'.performAll actions).1 = (m.performAll actions).1 ∧
      (m.performAll actions).2.Agrees (m'.performAll actions).2 := by
  intro segment load m m' actions
  have hagrees : m.Agrees m' := m.agrees_withMemory (m.memory.agrees_writeChunk_nil 0x3000)
  have hpage : m'.memory.pages[(0x3000 : Address)]? ≠ none := by
    show (m.memory.pages.alter (pageBase 0x3000) _)[(0x3000 : Address)]? ≠ none
    rw [show pageBase 0x3000 = 0x3000 by decide, Std.ExtTreeMap.getElem?_alter_self]
    exact Option.some_ne_none _
  exact ⟨rfl, hpage, hagrees, performAll_agrees hagrees actions⟩

end Machine
end PathReplay
