import PathReplay.Proofs.Register.Aliasing

/-!
# The floating point stack as a ring

* `cell`, `slots` : what a physical register holds, and what the eight stack positions hold;
* `cell_load`, `cell_withTag`, `top_withTop` and so on : the two views after each step of a push and of a pop;
* `slots_push`, `slots_pop`, `slots_setSlot` : the positions after a push, a pop and a write in place;
* `word`, `status_push`, `status_pop` : the status word and the control word, and what a push and a pop change of them
  besides `top`;
* `Op`, `run`, `lifo?` : pushes and pops one after the other, here and on a list; `run_lifo` : they agree;
* `slots_exact` : all of it, from every state.
-/

namespace PathReplay

namespace Field

variable {n : Nat} {f g : Field n}

/-- Writes to different stores can be exchanged. -/
theorem write_comm (h : f.store ≠ g.store) (s : Stores n) (v w : BitVec 128) :
    f.write (g.write s v) w = g.write (f.write s w) v := by
  have hval : f.store.val ≠ g.store.val := fun heq => h (Fin.ext heq)
  rw [write, getElem_write_ne g s v h, write, write, getElem_write_ne f s w h.symm, write]
  exact Vector.set_comm _ _ hval.symm

end Field

namespace FloatStack

variable {s : FloatStack} {p q : Fin 8} {f : Field 3} {x : Double} {i k : Nat}

/-! ## Physical registers -/

/-- What a physical register holds. -/
def cell (s : FloatStack) (p : Fin 8) : Option Double := if s.isEmpty p then none else some (s.data.get p)

theorem slot_eq_cell (s : FloatStack) (i : Nat) : s.slot i = s.cell (s.physical i) := rfl

theorem cell_eq_none_iff : s.cell p = none ↔ s.isEmpty p = true := by
  rw [cell]
  cases s.isEmpty p <;> simp

theorem tagField_ne (h : q ≠ p) : 2 * q.val + 2 ≤ 2 * p.val ∨ 2 * p.val + 2 ≤ 2 * q.val := by
  have hval : q.val ≠ p.val := fun heq => h (Fin.ext heq)
  omega

theorem tagField_store_ne (p : Fin 8) : (tagField p).store ≠ 0 := (by decide : (2 : Fin 3) ≠ 0)

theorem tagField_fits (p : Fin 8) : (tagField p).offset + (tagField p).bits ≤ 128 := by
  have := p.isLt
  simp only [tagField]
  omega

/-- A tag that is written is read back, and the tags of other registers stay. -/
theorem read_write_tag (p q : Fin 8) (w : Stores 3) (v : BitVec 128) :
    (tagField q).read ((tagField p).write w v) =
      if q = p then v &&& Word.maskBits 2 else (tagField q).read w := by
  split
  · rename_i heq
    subst heq
    exact Field.read_write_self (tagField_fits q) w v
  · rename_i hne
    exact Field.read_write_of_disjoint (tagField_fits q) (.inr ⟨rfl, (tagField_ne hne).symm⟩) w v

/-- The tag of a value is not that of an empty register. -/
theorem tagOf_masked_ne (x : Double) : tagOf x &&& Word.maskBits 2 ≠ emptyTag := by
  unfold tagOf
  split
  · decide
  · split <;> decide

theorem get_data_load (s : FloatStack) (p : Fin 8) (x : Double) (q : Fin 8) :
    (s.load p x).data.get q = if q = p then x else s.data.get q := by
  show (s.data.set p.val x p.isLt)[q.val] = _
  rw [Vector.getElem_set, if_congr (Fin.ext_iff.symm.trans eq_comm) rfl rfl]
  rfl

theorem cell_load (s : FloatStack) (p : Fin 8) (x : Double) (q : Fin 8) :
    (s.load p x).cell q = if q = p then some x else s.cell q := by
  have htag : (s.load p x).isEmpty q = if q = p then false else s.isEmpty q := by
    simp only [isEmpty, load, read_write_tag]
    split
    · exact beq_false_of_ne (tagOf_masked_ne x)
    · rfl
  rw [cell, htag, get_data_load]
  split
  · rfl
  · rfl

/-- A register is emptied by its tag. -/
theorem cell_withTag (s : FloatStack) (p q : Fin 8) :
    (s.withField (tagField p) emptyTag).cell q = if q = p then none else s.cell q := by
  have htag : (s.withField (tagField p) emptyTag).isEmpty q = if q = p then true else s.isEmpty q := by
    simp only [isEmpty, withField, read_write_tag]
    split
    · decide
    · rfl
  rw [cell, htag]
  split
  · rfl
  · rfl

/-- The status word does not tell what a register holds. -/
theorem cell_withField (h : f.store = 0) (v : BitVec 128) (q : Fin 8) : (s.withField f v).cell q = s.cell q := by
  have hne : (tagField q).store ≠ f.store := h ▸ tagField_store_ne q
  have htag : (s.withField f v).isEmpty q = s.isEmpty q :=
    congrArg (· == emptyTag) (Field.read_write_of_ne hne s.words v)
  rw [cell, htag, cell]
  rfl

theorem cell_withFault (s : FloatStack) (overflow : Bool) (q : Fin 8) : (s.withFault overflow).cell q = s.cell q := by
  rw [withFault, cell_withField rfl, cell_withField rfl, cell_withField rfl]

/-! ## The top of the stack -/

theorem toNat_readTop_lt (s : FloatStack) : (topField.read s.words).toNat < 8 := by
  rw [Field.toNat_read]
  exact Nat.mod_lt _ (by decide)

theorem top_withTop (s : FloatStack) (p : Fin 8) : (s.withTop p).top = p := by
  have hread : topField.read (s.withTop p).words = _ := Field.read_write_self (by decide) s.words _
  apply Fin.ext
  have hp := p.isLt
  rw [top, hread, Word.toNat_and_maskBits, BitVec.toNat_ofNat, Fin.val_ofNat]
  show p.val % 2 ^ 128 % 2 ^ 3 % 8 = p.val
  omega

/-- The field of `top` holds it. -/
theorem readTop_eq (s : FloatStack) : topField.read s.words = BitVec.ofNat 128 s.top.val := by
  have hlt := s.toNat_readTop_lt
  apply BitVec.eq_of_toNat_eq
  rw [top, Fin.val_ofNat, BitVec.toNat_ofNat, Nat.mod_eq_of_lt hlt, Nat.mod_eq_of_lt (by omega)]

theorem top_withField (h : f.store ≠ 0 ∨ f.zeroExtends = false ∧ (f.offset + f.bits ≤ 11 ∨ 14 ≤ f.offset))
    (v : BitVec 128) : (s.withField f v).top = s.top := by
  have hread : topField.read (f.write s.words v) = topField.read s.words :=
    Field.read_write_of_disjoint (by decide) h s.words v
  rw [top, withField, hread, top]

theorem top_load (s : FloatStack) (p : Fin 8) (x : Double) : (s.load p x).top = s.top :=
  top_withField (s := s) (f := tagField p) (.inl (tagField_store_ne p)) (tagOf x)

theorem top_withFault (s : FloatStack) (overflow : Bool) : (s.withFault overflow).top = s.top := by
  rw [withFault, top_withField (.inr (by decide)), top_withField (.inr (by decide)), top_withField (.inr (by decide))]

/-! ## Stack positions -/

/-- The eight stack positions, `st0` first. -/
def slots (s : FloatStack) : List (Option Double) := (List.range 8).map s.slot

theorem val_physical (s : FloatStack) (i : Nat) : (s.physical i).val = (s.top.val + i) % 8 := Fin.val_ofNat ..

/-- Positions are counted modulo eight. -/
theorem physical_eq_iff {j : Nat} : s.physical i = s.physical j ↔ i % 8 = j % 8 := by
  rw [Fin.ext_iff, val_physical, val_physical]
  omega

theorem slot_load (s : FloatStack) (p : Fin 8) (x : Double) (i : Nat) :
    (s.load p x).slot i = if s.physical i = p then some x else s.slot i := by
  have hphysical : (s.load p x).physical i = s.physical i := by rw [physical, top_load, physical]
  rw [slot_eq_cell, hphysical, cell_load, slot_eq_cell]

/-- Moving the top shifts the positions. -/
theorem slot_withTop (s : FloatStack) (i d : Nat) :
    (s.withTop (s.physical d)).slot i = s.slot (d + i) := by
  have hphysical : (s.withTop (s.physical d)).physical i = s.physical (d + i) := by
    apply Fin.ext
    rw [val_physical, top_withTop, val_physical, val_physical]
    omega
  rw [slot_eq_cell, hphysical, withTop, cell_withField rfl, slot_eq_cell]

theorem slot_withFault (s : FloatStack) (overflow : Bool) (i : Nat) : (s.withFault overflow).slot i = s.slot i := by
  rw [slot_eq_cell, physical, top_withFault, cell_withFault, slot_eq_cell, physical]

/-- Positions are counted modulo eight. -/
theorem slot_mod (s : FloatStack) (i : Nat) : s.slot (i % 8) = s.slot i := by
  rw [slot_eq_cell, slot_eq_cell, physical_eq_iff.2 (Nat.mod_mod i 8)]

theorem slots_setSlot (s : FloatStack) (k : Nat) (x : Double) :
    (s.setSlot k x).slots = s.slots.set (k % 8) (some x) := by
  apply List.ext_getElem
  · simp [slots]
  · intro i hi hi'
    have hlt : i < 8 := by simpa [slots] using hi
    rw [List.getElem_set]
    simp only [slots, List.getElem_map, List.getElem_range, setSlot, slot_load, physical_eq_iff, Nat.mod_eq_of_lt hlt,
      eq_comm]

/-- A push before anything is stored: the top has moved, and an overflow is noted. -/
def pushed (s : FloatStack) : FloatStack :=
  let t := s.withTop (s.physical 7)
  if s.slot 7 = none then t else t.withFault true

theorem push_eq (s : FloatStack) (x : Double) : s.push x = s.pushed.load s.pushed.top x := by
  let t := s.withTop (s.physical 7)
  have hfree : s.slot 7 = none ↔ t.isEmpty t.top = true := by
    rw [← cell_eq_none_iff, ← show t.slot 0 = s.slot 7 from slot_withTop s 0 7, slot_eq_cell]
    have hphysical : t.physical 0 = t.top := by
      apply Fin.ext
      rw [val_physical]
      omega
    rw [hphysical]
  show (if t.isEmpty t.top then t else t.withFault true).load _ x = _
  rw [pushed, if_congr hfree rfl rfl]
  rfl

theorem slot_pushed (s : FloatStack) (i : Nat) : s.pushed.slot i = s.slot (7 + i) := by
  unfold pushed
  dsimp only
  split
  · exact slot_withTop s i 7
  · rw [slot_withFault, slot_withTop]

/-- A push puts its value in front. The last position is lost. -/
theorem slots_push (s : FloatStack) (x : Double) : (s.push x).slots = some x :: s.slots.take 7 := by
  have htop : s.pushed.physical 0 = s.pushed.top := by
    apply Fin.ext
    rw [val_physical]
    omega
  have hfirst : (s.push x).slot 0 = some x := by rw [push_eq, slot_load, if_pos htop]
  have hrest : ∀ i ∈ List.range 7, (s.push x).slot (i + 1) = s.slot i := by
    intro i hi
    have hlt := List.mem_range.1 hi
    have hne : s.pushed.physical (i + 1) ≠ s.pushed.top := by
      rw [← htop, Ne, physical_eq_iff]
      omega
    rw [push_eq, slot_load, if_neg hne, slot_pushed, ← slot_mod s (7 + (i + 1)), ← slot_mod s i]
    congr 1
    omega
  rw [slots, List.range_succ_eq_map, List.map_cons, List.map_map, hfirst, slots, ← List.map_take, List.take_range]
  exact congrArg (some x :: ·) (List.map_congr_left hrest)

theorem slot_withTag (s : FloatStack) (p : Fin 8) (i : Nat) :
    (s.withField (tagField p) emptyTag).slot i = if s.physical i = p then none else s.slot i := by
  have htop : (s.withField (tagField p) emptyTag).top = s.top := top_withField (.inl (tagField_store_ne p)) _
  rw [slot_eq_cell, physical, htop, cell_withTag, slot_eq_cell]
  rfl

/-- A pop before the register is emptied: an underflow is noted. -/
def popped (s : FloatStack) : FloatStack := if s.slot 0 = none then s.withFault false else s

theorem top_popped (s : FloatStack) : s.popped.top = s.top := by
  unfold popped
  split
  · exact s.top_withFault false
  · rfl

theorem slot_popped (s : FloatStack) (i : Nat) : s.popped.slot i = s.slot i := by
  unfold popped
  split
  · exact s.slot_withFault false i
  · rfl

theorem physical_zero (s : FloatStack) : s.physical 0 = s.top := by
  apply Fin.ext
  rw [val_physical]
  omega

theorem pop_eq (s : FloatStack) :
    s.pop = ((s.slot 0).getD .nan,
      (s.popped.withField (tagField s.top) emptyTag).withTop (s.physical 1)) := by
  have hslot : s.slot 0 = if s.isEmpty s.top then none else some (s.data.get s.top) := by
    rw [slot_eq_cell, physical_zero]
    rfl
  unfold pop popped
  dsimp only
  rw [hslot]
  cases s.isEmpty s.top <;> rfl

/-- A pop drops the first position, and the last one becomes empty. -/
theorem slots_pop (s : FloatStack) : s.pop.2.slots = s.slots.tail ++ [none] := by
  let t := s.popped.withField (tagField s.top) emptyTag
  have htop : t.top = s.top := (top_withField (.inl (tagField_store_ne s.top)) _).trans s.top_popped
  have hslot : ∀ i, s.pop.2.slot i = if (1 + i) % 8 = 0 then none else s.slot (1 + i) := by
    intro i
    have hmoved : s.pop.2 = t.withTop (t.physical 1) := by rw [pop_eq, physical, physical, htop]
    have hzero : s.popped.physical (1 + i) = s.top ↔ (1 + i) % 8 = 0 := by
      rw [← top_popped, ← physical_zero, physical_eq_iff]
    rw [hmoved, slot_withTop, slot_withTag, slot_popped, if_congr hzero rfl rfl]
  have hrest : ∀ i ∈ List.range 7, s.pop.2.slot i = s.slot (i + 1) := by
    intro i hi
    have hlt := List.mem_range.1 hi
    rw [hslot, if_neg (by omega), Nat.add_comm]
  rw [slots, List.range_succ, List.map_append, List.map_congr_left hrest, List.map_singleton, hslot, slots,
    List.range_succ_eq_map, List.map_cons, List.map_map]
  rfl

/-! ## The words -/

/-- The status, the control and the tag word: 0, 1 and 2. -/
def word (s : FloatStack) (store : Fin 3) : BitVec 128 := s.words.get store

theorem control_withField (h : f.store ≠ 1) (v : BitVec 128) : (s.withField f v).word 1 = s.word 1 :=
  f.getElem_write_ne s.words v (Ne.symm h)

theorem control_withTag (s : FloatStack) (p : Fin 8) (v : BitVec 128) :
    (s.withField (tagField p) v).word 1 = s.word 1 :=
  control_withField (s := s) (f := tagField p) (by decide : (2 : Fin 3) ≠ 1) v

theorem status_withTag (s : FloatStack) (p : Fin 8) (v : BitVec 128) : (s.withField (tagField p) v).word 0 = s.word 0 :=
  (tagField p).getElem_write_ne s.words v (tagField_store_ne p).symm

theorem getLsbD_status_withField (hstore : f.store = 0) (hkeeps : f.zeroExtends = false)
    (hfit : f.offset + f.bits ≤ 128) (v : BitVec 128) (k : Nat) :
    ((s.withField f v).word 0).getLsbD k =
      if f.offset ≤ k ∧ k < f.offset + f.bits then v.getLsbD (k - f.offset) else (s.word 0).getLsbD k := by
  by_cases hk : k < 128
  · refine (f.getLsbD_write s.words v 0 hk).trans ?_
    rw [if_neg (not_not_intro hstore), hkeeps, Bool.not_false, Bool.true_and]
    rfl
  · rw [BitVec.getLsbD_of_ge _ _ (by omega), BitVec.getLsbD_of_ge (s.word 0) _ (by omega), if_neg (by omega)]

/-- Where the words have the bits that a push and a pop write, and those of the tags. -/
theorem field?_floatWords :
    (∀ e ∈ [("i", 0, 1), ("sf", 6, 1), ("c1", 9, 1), ("top", 11, 3)],
      Layout.floatWords.field? e.1 = some ⟨0, e.2.1, e.2.2, false⟩) ∧
    ∀ p : Fin 8, Layout.floatWords.field? ("tag" ++ toString p.val) = some (tagField p) := by
  decide +kernel

/-- The bits of the status word that `top` is made of. -/
def IsTopBit (k : Nat) : Prop := 11 ≤ k ∧ k < 14

theorem status_withTop (s : FloatStack) (p : Fin 8) (hk : ¬ IsTopBit k) :
    ((s.withTop p).word 0).getLsbD k = (s.word 0).getLsbD k := by
  rw [withTop, getLsbD_status_withField rfl rfl (by decide)]
  exact if_neg hk

/-- A bit of the status word is written. -/
theorem getLsbD_status_withBit (s : FloatStack) {n : Nat} (hn : n < 128) (b : Bool) (k : Nat) :
    ((s.withField (conditionField n) (if b then 1 else 0)).word 0).getLsbD k =
      if k = n then b else (s.word 0).getLsbD k := by
  have hwindow : ((conditionField n).offset ≤ k ∧ k < (conditionField n).offset + (conditionField n).bits) ↔ k = n := by
    show n ≤ k ∧ k < n + 1 ↔ k = n
    omega
  have hbit := getLsbD_status_withField (s := s) (f := conditionField n) rfl rfl hn (if b then 1 else 0) k
  rw [hbit, if_congr hwindow rfl rfl]
  split
  · rename_i heq
    subst heq
    rw [show k - (conditionField k).offset = 0 from Nat.sub_self k]
    cases b <;> rfl
  · rfl

/-- A stack fault raises bits 0 and 6; bit 9 tells an overflow from an underflow. -/
theorem status_withFault (s : FloatStack) (overflow : Bool) (k : Nat) :
    ((s.withFault overflow).word 0).getLsbD k =
      if k = 9 then overflow else if k = 6 then true else if k = 0 then true else (s.word 0).getLsbD k := by
  let t := s.withField (conditionField 0) (if true then 1 else 0)
  let u := t.withField (conditionField 6) (if true then 1 else 0)
  have hfault : s.withFault overflow = u.withField (conditionField 9) (if overflow then 1 else 0) := rfl
  rw [hfault, getLsbD_status_withBit u (by decide), getLsbD_status_withBit t (by decide),
    getLsbD_status_withBit s (by decide)]

theorem control_withFault (s : FloatStack) (overflow : Bool) : (s.withFault overflow).word 1 = s.word 1 := by
  rw [withFault, control_withField (by decide), control_withField (by decide), control_withField (by decide)]

theorem status_push (s : FloatStack) (x : Double) (hk : ¬ IsTopBit k) :
    ((s.push x).word 0).getLsbD k =
      if s.slot 7 ≠ none ∧ (k = 0 ∨ k = 6 ∨ k = 9) then true else (s.word 0).getLsbD k := by
  rw [push_eq, show (s.pushed.load s.pushed.top x).word 0 = s.pushed.word 0 from s.pushed.status_withTag _ _]
  unfold pushed
  cases hslot : s.slot 7 with
  | none => simp [status_withTop _ _ hk]
  | some y =>
    simp only [reduceCtorEq, if_false, status_withFault, status_withTop _ _ hk, ne_eq, not_false_eq_true, true_and]
    grind

theorem status_pop (s : FloatStack) (hk : ¬ IsTopBit k) :
    (s.pop.2.word 0).getLsbD k =
      if s.slot 0 = none ∧ k = 9 then false
      else if s.slot 0 = none ∧ (k = 0 ∨ k = 6) then true else (s.word 0).getLsbD k := by
  rw [pop_eq, status_withTop _ _ hk, status_withTag]
  unfold popped
  split
  · rename_i hslot
    simp only [status_withFault, hslot, true_and]
    grind
  · rename_i hslot
    simp [hslot]

theorem top_push (s : FloatStack) (x : Double) : (s.push x).top = s.physical 7 := by
  rw [push_eq, top_load]
  unfold pushed
  dsimp only
  split
  · exact top_withTop s _
  · rw [top_withFault, top_withTop]

theorem top_pop (s : FloatStack) : s.pop.2.top = s.physical 1 := by
  rw [pop_eq, top_withTop]

theorem physical_push (s : FloatStack) (x : Double) : (s.push x).physical 1 = s.top := by
  apply Fin.ext
  have hlt := s.top.isLt
  rw [val_physical, top_push, val_physical]
  omega

theorem control_push (s : FloatStack) (x : Double) : (s.push x).word 1 = s.word 1 := by
  rw [push_eq, show (s.pushed.load s.pushed.top x).word 1 = s.pushed.word 1 from s.pushed.control_withTag _ _]
  unfold pushed
  dsimp only
  split
  · exact control_withField (by decide) _
  · rw [control_withFault, withTop, control_withField (by decide)]

theorem control_pop (s : FloatStack) : s.pop.2.word 1 = s.word 1 := by
  rw [pop_eq, withTop, control_withField (by decide), control_withTag]
  unfold popped
  split
  · exact s.control_withFault false
  · rfl

/-- A pop takes back what a push did to the words, if the push was onto an empty register. -/
theorem words_pop_push (s : FloatStack) (x : Double) (h : s.slot 7 = none) : (s.push x).pop.2.words = s.words := by
  let p := (s.push x).top
  have hpushed : s.pushed = s.withTop p := by
    rw [pushed, if_pos h, show p = s.physical 7 from s.top_push x]
  have hslot : (s.push x).slot 0 = some x := (List.cons.inj (s.slots_push x)).1
  have hpopped : (s.push x).popped = s.push x := by rw [popped, hslot, if_neg (Option.some_ne_none x)]
  have htag : (tagField p).read s.words = emptyTag := by
    have hempty : s.cell (s.physical 7) = none := h
    have hphysical : s.physical 7 = p := (s.top_push x).symm
    rw [hphysical, cell_eq_none_iff] at hempty
    exact beq_iff_eq.1 hempty
  have hne : topField.store ≠ (tagField p).store := (tagField_store_ne p).symm
  have hwords : (s.push x).words =
      (tagField p).write (topField.write s.words (BitVec.ofNat 128 p.val)) (tagOf x) := by
    rw [push_eq, hpushed, top_withTop]
    rfl
  calc (s.push x).pop.2.words
      = topField.write ((tagField p).write (s.push x).words emptyTag) (BitVec.ofNat 128 s.top.val) := by
        rw [pop_eq, hpopped, physical_push]
        rfl
    _ = (tagField p).write (topField.write s.words (BitVec.ofNat 128 s.top.val)) emptyTag := by
        rw [hwords, Field.write_write, Field.write_comm hne, Field.write_write]
    _ = s.words := by rw [← readTop_eq, Field.write_read rfl, ← htag, Field.write_read rfl]

/-! ## Runs -/

inductive Op where
  | push (x : Double)
  | pop

/-- The values popped, first one first, and the state after pushes and pops one after the other. -/
def run (s : FloatStack) : List Op → List Double × FloatStack
  | [] => ([], s)
  | .push x :: ops => (s.push x).run ops
  | .pop :: ops => (s.pop.1 :: (s.pop.2.run ops).1, (s.pop.2.run ops).2)

/-- The values popped and those left, last one first, of pushes and pops on a list of at most eight values, if no push
is onto a full one and no pop from an empty one. -/
def lifo? (held : List Double) : List Op → Option (List Double × List Double)
  | [] => some ([], held)
  | .push x :: ops => if held.length < 8 then lifo? (x :: held) ops else none
  | .pop :: ops =>
    match held with
    | [] => none
    | x :: rest => (lifo? rest ops).map fun (popped, left) => (x :: popped, left)

/-- The occupied positions are the first ones and hold these values. -/
def Holds (s : FloatStack) (held : List Double) : Prop :=
  s.slots = held.map some ++ List.replicate (8 - held.length) none

theorem slots_eq_cons (s : FloatStack) : s.slots = s.slot 0 :: s.slots.tail := rfl

theorem getElem?_slots (s : FloatStack) (h : i < 8) : s.slots[i]? = some (s.slot i) := by
  rw [slots, List.getElem?_map, List.getElem?_range h, Option.map_some]

theorem Holds.push {held : List Double} (h : s.Holds held) (hlt : held.length < 8) (x : Double) :
    (s.push x).Holds (x :: held) ∧ s.slot 7 = none := by
  have hsplit : s.slots = held.map some ++ List.replicate (7 - held.length) none ++ [none] := by
    rw [h, List.append_assoc, ← List.replicate_succ', show 7 - held.length + 1 = 8 - held.length by omega]
  have hlength : (held.map some ++ List.replicate (7 - held.length) (none : Option Double)).length = 7 := by
    rw [List.length_append, List.length_map, List.length_replicate]
    omega
  constructor
  · rw [Holds, slots_push, hsplit, List.take_append_of_le_length (by omega), List.take_of_length_le (by omega),
      List.length_cons, List.map_cons, List.cons_append, show 8 - (held.length + 1) = 7 - held.length by omega]
  · have hlast := s.getElem?_slots (i := 7) (by decide)
    rw [hsplit, List.getElem?_append_right (by omega), hlength] at hlast
    exact (Option.some_inj.1 hlast).symm

theorem Holds.pop {held : List Double} (h : s.Holds (x :: held)) :
    s.pop.2.Holds held ∧ s.slot 0 = some x := by
  have hcons := s.slots_eq_cons.symm.trans h
  rw [List.map_cons, List.cons_append, List.cons.injEq] at hcons
  obtain ⟨hfirst, htail⟩ := hcons
  refine ⟨?_, hfirst⟩
  rw [Holds, slots_pop, htail, List.length_cons, List.append_assoc, ← List.replicate_succ']
  have hle : held.length + 1 ≤ 8 := by
    have hlength := congrArg List.length h
    simp [slots] at hlength
    omega
  rw [show 8 - (held.length + 1) + 1 = 8 - held.length by omega]

/-- Pushes and pops work as on a list, and raise no bit. -/
theorem run_lifo {ops : List Op} {held popped left : List Double} (h : s.Holds held)
    (hrun : lifo? held ops = some (popped, left)) :
    (s.run ops).1 = popped ∧ (s.run ops).2.Holds left ∧
      ∀ k, ¬ IsTopBit k → ((s.run ops).2.word 0).getLsbD k = (s.word 0).getLsbD k := by
  induction ops generalizing s held popped with
  | nil =>
    obtain ⟨rfl, rfl⟩ := Prod.mk.inj (Option.some_inj.1 hrun)
    exact ⟨rfl, h, fun _ _ => rfl⟩
  | cons op ops ih =>
    cases op with
    | push x =>
      rw [lifo?] at hrun
      split at hrun
      · rename_i hlt
        obtain ⟨hheld, hfree⟩ := h.push hlt x
        obtain ⟨hpopped, hleft, hstatus⟩ := ih hheld hrun
        refine ⟨hpopped, hleft, fun k hk => (hstatus k hk).trans ?_⟩
        rw [status_push s x hk, if_neg fun hfull => hfull.1 hfree]
      · cases hrun
    | pop =>
      cases held with
      | nil => cases hrun
      | cons x held =>
        obtain ⟨⟨out, left'⟩, hrest, heq⟩ := Option.map_eq_some_iff.1 hrun
        obtain ⟨rfl, rfl⟩ := Prod.mk.inj heq
        obtain ⟨hheld, hfirst⟩ := h.pop
        obtain ⟨hpopped, hleft, hstatus⟩ := ih hheld hrest
        refine ⟨?_, hleft, fun k hk => (hstatus k hk).trans ?_⟩
        · rw [run, hpopped, pop_eq, hfirst]
          rfl
        · rw [status_pop s hk, hfirst]
          simp

theorem holds_initial : initial.Holds [] := (by decide : initial.slots = List.replicate 8 none)

/-- The floating point stack is a ring of eight optional values, in every state. A push puts its value in front of the
others, the last of which is lost; `i`, `sf` and `c1` (bits 0, 6 and 9 of the status word) are raised if there was one,
and no other bit but those of `top` changes. A pop gives the first value and drops it, and the last position becomes
empty; without a first value it gives a NaN, raises `i` and `sf` and clears `c1`. A write in place changes one position.
From a reset, pushes and pops work as on a list of at most eight values, and raise no bit. A pop takes back a push, but
for a value that was lost and the bits that tell of it. -/
theorem slots_exact (s : FloatStack) :
    (∀ e ∈ [("i", 0, 1), ("sf", 6, 1), ("c1", 9, 1), ("top", 11, 3)],
      Layout.floatWords.field? e.1 = some ⟨0, e.2.1, e.2.2, false⟩) ∧
    (∀ x,
      let t := s.push x
      t.slots = some x :: s.slots.take 7 ∧ t.top.val = (s.top.val + 7) % 8 ∧ t.word 1 = s.word 1 ∧
        ∀ k, ¬ IsTopBit k → (t.word 0).getLsbD k =
          if s.slot 7 ≠ none ∧ (k = 0 ∨ k = 6 ∨ k = 9) then true else (s.word 0).getLsbD k) ∧
    (let t := s.pop.2
     s.pop.1 = (s.slot 0).getD .nan ∧ t.slots = s.slots.tail ++ [none] ∧ t.top.val = (s.top.val + 1) % 8 ∧
        t.word 1 = s.word 1 ∧
        ∀ k, ¬ IsTopBit k → (t.word 0).getLsbD k =
          if s.slot 0 = none ∧ k = 9 then false
          else if s.slot 0 = none ∧ (k = 0 ∨ k = 6) then true else (s.word 0).getLsbD k) ∧
    (∀ i x,
      let t := s.setSlot i x
      t.slots = s.slots.set (i % 8) (some x) ∧ t.word 0 = s.word 0 ∧ t.word 1 = s.word 1 ∧
        ∀ p, p ≠ s.physical i → (tagField p).read t.words = (tagField p).read s.words ∧ t.data.get p = s.data.get p) ∧
    (∀ x,
      let t := (s.push x).pop.2
      (s.push x).pop.1 = x ∧ t.slots = s.slots.take 7 ++ [none] ∧ t.top = s.top ∧
        (s.slot 7 = none → t.words = s.words)) ∧
    ∀ ops popped left, lifo? [] ops = some (popped, left) →
      let t := (initial.run ops).2
      (initial.run ops).1 = popped ∧ t.slots = left.map some ++ List.replicate (8 - left.length) none ∧
        ∀ k, ¬ IsTopBit k → (t.word 0).getLsbD k = false := by
  have hpush : ∀ x, (s.push x).slot 0 = some x := fun x => (List.cons.inj (s.slots_push x)).1
  refine ⟨field?_floatWords.1, fun x => ⟨s.slots_push x, ?_, s.control_push x, fun k hk => s.status_push x hk⟩,
    ⟨?_, s.slots_pop, ?_, s.control_pop, fun k hk => s.status_pop hk⟩,
    fun i x => ⟨s.slots_setSlot i x, s.status_withTag _ _, s.control_withTag _ _, fun p hp => ⟨?_, ?_⟩⟩,
    fun x => ⟨?_, ?_, ?_, s.words_pop_push x⟩, fun ops popped left hrun => ?_⟩
  · rw [top_push, val_physical]
  · rw [pop_eq]
  · rw [top_pop, val_physical]
  · exact (read_write_tag _ p s.words _).trans (if_neg hp)
  · exact (s.get_data_load _ x p).trans (if_neg hp)
  · rw [pop_eq, hpush]
    rfl
  · rw [slots_pop, slots_push, List.tail_cons]
  · rw [top_pop, physical_push]
  · obtain ⟨hpopped, hleft, hstatus⟩ := run_lifo holds_initial hrun
    refine ⟨hpopped, hleft, fun k hk => (hstatus k hk).trans ?_⟩
    show (0 : BitVec 128).getLsbD k = false
    simp

/-- A NaN is a value like any other: it is pushed above a zero and popped again. -/
theorem slots_push_pop_nan :
    let ops : List Op := [.push .zero, .push .nan, .pop, .push .one]
    lifo? [] ops = some ([.nan], [.one, .zero]) ∧ (initial.run ops).1 = [.nan] ∧
      (initial.run ops).2.slots = some .one :: some .zero :: List.replicate 6 none := by
  intro ops
  have hrun : lifo? [] ops = some ([.nan], [.one, .zero]) := by decide
  obtain ⟨hpopped, hslots, -⟩ := (slots_exact initial).2.2.2.2.2 ops _ _ hrun
  exact ⟨hrun, hpopped, hslots⟩

end FloatStack
end PathReplay
