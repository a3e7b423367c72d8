import PathReplay.Proofs.Instruction.Addressing
import PathReplay.Proofs.Instruction.TwosComplement

/-!
# Slots of the current frame

* `FrameMember.Contains` : the offsets of a slot; `contains_iff` : in exact arithmetic, none if its end is no offset;
* `Arch.distance` : how far an address is above another, as a signed number;
* `Machine.frameMember?_eq` : the slot of an address is the first that contains its distance from the stack pointer;
* `Machine.slotStart_le_of_contains` : an address lies in the range of its slot;
* `Machine.frameMember?_exact` : all together, and which variable an operand registers.
-/

namespace PathReplay

/-! ## Offsets -/

namespace FrameMember

variable {s : FrameMember} {o : Int}

/-- A slot contains the offsets from its own up to its end. The end is a sum of 64 bits. -/
def Contains (s : FrameMember) (o : Int) : Prop := s.offset.toInt ≤ o ∧ o < (s.offset + s.size.toInt64).toInt

instance (s : FrameMember) (o : Int) : Decidable (s.Contains o) := inferInstanceAs (Decidable (_ ∧ _))

theorem covers_iff {o : Int64} : s.covers o = true ↔ s.Contains o.toInt := by
  rw [covers, Bool.and_eq_true, decide_eq_true_iff, decide_eq_true_iff, Int64.le_iff_toInt_le, Int64.lt_iff_toInt_lt,
    Contains]

theorem toInt_stop (s : FrameMember) :
    (s.offset + s.size.toInt64).toInt = (s.offset.toInt + s.size.toNat).bmod (2 ^ 64) := by
  rw [Int64.toInt_add, Word.toInt_toInt64, Int.add_bmod_bmod]

/-- A slot contains the offsets between its own and its end, or nothing if the end is past the largest offset. -/
theorem contains_iff : s.Contains o ↔
    (s.offset.toInt ≤ o ∧ o < s.offset.toInt + s.size.toNat) ∧ s.offset.toInt + s.size.toNat < 2 ^ 63 := by
  have hlow : -2 ^ 63 ≤ s.offset.toInt := s.offset.le_toInt
  have hhigh : s.offset.toInt < 2 ^ 63 := s.offset.toInt_lt
  have hsize : s.size.toNat < 2 ^ 64 := s.size.toNat_lt
  rw [Contains, toInt_stop, Int.bmod_def]
  omega

/-- A slot that shares no offset with another slot of a list. -/
def IsApart (s : FrameMember) (slots : List FrameMember) : Prop :=
  ∀ t ∈ slots, t ≠ s → ∀ o, s.Contains o → ¬ t.Contains o

theorem find?_eq_some_of_isApart {slots : List FrameMember} (hmem : s ∈ slots) (hapart : s.IsApart slots)
    (hs : s.Contains o) : slots.find? (fun t => t.Contains o) = some s := by
  cases hfind : slots.find? fun t => t.Contains o with
  | none => exact absurd (decide_eq_true hs) (List.find?_eq_none.1 hfind s hmem)
  | some t =>
    have ht : t.Contains o := by simpa using List.find?_some hfind
    by_contra hne
    exact hapart t (List.mem_of_find?_eq_some hfind) (fun heq => hne (congrArg some heq)) o hs ht

end FrameMember

/-! ## Distances -/

/-- How far an address is above another, as a signed number of the pointer width. -/
def Arch.distance (arch : Arch) (a b : Address) : Int := ((a.toNat : Int) - b.toNat).bmod (2 ^ (8 * arch.pointerSize))

theorem Arch.distance_x86_64 (a b : Address) : distance .x86_64 a b = (a - b).toInt64.toInt := by
  rw [UInt64.toInt64_sub, Int64.toInt_sub, Word.toInt_toInt64, Word.toInt_toInt64, Int.sub_bmod_bmod, Int.bmod_sub_bmod]
  rfl

theorem Arch.distance_x86 (a b : Address) : distance .x86 a b = (a - b).toInt64.toInt32.toInt64.toInt := by
  rw [Int32.toInt_toInt64, Int64.toInt_toInt32, ← distance_x86_64]
  exact (Int.bmod_bmod_of_dvd (by decide)).symm

/-- An address is as far above another as its distance, modulo the pointer width. -/
theorem Arch.toNat_wrap_eq_add_distance (arch : Arch) (a b : Address) :
    ((arch.wrap a).toNat : Int) = (b.toNat + arch.distance a b) % (2 ^ (8 * arch.pointerSize) : Nat) := by
  rw [toNat_wrap, distance, Int.natCast_emod, Int.add_emod, Int.bmod_emod, ← Int.add_emod]
  congr 1
  omega

def Frame.slotStart (frame : Frame) (arch : Arch) (s : FrameMember) : Address :=
  arch.wrap (frame.sp + s.offset.toUInt64)

theorem Frame.toNat_slotStart (frame : Frame) (arch : Arch) (s : FrameMember) :
    ((frame.slotStart arch s).toNat : Int) =
      (frame.sp.toNat + s.offset.toInt) % (2 ^ (8 * arch.pointerSize) : Nat) := by
  have hoffset : s.offset.toInt = Int.bmod s.offset.toUInt64.toNat (2 ^ 64) := Word.toInt_toInt64 s.offset.toUInt64
  rw [slotStart, Arch.toNat_wrap, UInt64.toNat_add, hoffset, Int.bmod_def]
  cases arch <;> simp only [Arch.pointerSize] <;> omega

namespace Machine

variable {m : Machine} {frame : Frame} {a : Address} {s : FrameMember}

def slots (m : Machine) (frame : Frame) : List FrameMember :=
  match m.listing.functionAt? frame.entry with
  | some f => f.frame
  | none => []

theorem frameMember?_eq (hframe : m.frame = some frame) (a : Address) : m.frameMember? a =
    ((m.slots frame).find? fun s => s.Contains (m.arch.distance a frame.sp)).map fun s =>
      (frame.slotStart m.arch s, s.name, s.size) := by
  have hcovers : ∀ o : Int64, m.arch.distance a frame.sp = o.toInt → ∀ f : FunctionRecord,
      f.frameMember? o = f.frame.find? fun s => s.Contains (m.arch.distance a frame.sp) := by
    intro o ho f
    refine congrArg (List.find? · f.frame) (funext fun s => ?_)
    rw [Bool.eq_iff_iff, FrameMember.covers_iff, ho, decide_eq_true_iff]
  unfold frameMember? slots
  rw [hframe, Option.bind_eq_bind, Option.bind_some]
  cases m.listing.functionAt? frame.entry with
  | none => rfl
  | some f =>
    generalize m.arch = arch at hcovers ⊢
    cases arch with
    | x86 =>
      rw [← hcovers _ (Arch.distance_x86 a frame.sp) f]
      exact Option.map_eq_bind.symm
    | x86_64 =>
      rw [← hcovers _ (Arch.distance_x86_64 a frame.sp) f]
      exact Option.map_eq_bind.symm

theorem slotStart_le_of_contains (hs : s.Contains (m.arch.distance a frame.sp))
    (hfits : (frame.slotStart m.arch s).toNat + s.size.toNat ≤ 2 ^ (8 * m.pointerSize)) :
    frame.slotStart m.arch s ≤ m.arch.wrap a ∧
      (m.arch.wrap a).toNat < (frame.slotStart m.arch s).toNat + s.size.toNat := by
  obtain ⟨⟨hle, hlt⟩, -⟩ := FrameMember.contains_iff.1 hs
  have hstart := frame.toNat_slotStart m.arch s
  obtain ⟨n, hn⟩ := Int.eq_ofNat_of_zero_le (Int.sub_nonneg.2 hle)
  have haddress : (m.arch.wrap a).toNat = (frame.slotStart m.arch s).toNat + n := by
    have hinside : (frame.slotStart m.arch s).toNat + n < 2 ^ (8 * m.arch.pointerSize) :=
      Nat.lt_of_lt_of_le (by omega) hfits
    rw [← Int.natCast_inj]
    calc ((m.arch.wrap a).toNat : Int)
      _ = (frame.sp.toNat + s.offset.toInt + n) % (2 ^ (8 * m.arch.pointerSize) : Nat) := by
        rw [m.arch.toNat_wrap_eq_add_distance a frame.sp]
        congr 1
        omega
      _ = ((frame.slotStart m.arch s).toNat + n : Nat) % (2 ^ (8 * m.arch.pointerSize) : Nat) := by
        rw [Int.natCast_add, hstart, Int.emod_add_emod]
      _ = ((frame.slotStart m.arch s).toNat + n : Nat) := by
        rw [← Int.natCast_emod, Nat.mod_eq_of_lt hinside]
  rw [UInt64.le_iff_toNat_le, haddress]
  omega

theorem frameMember?_eq_none_iff (hframe : m.frame = some frame) :
    m.frameMember? a = none ↔ ∀ s ∈ m.slots frame, ¬ s.Contains (m.arch.distance a frame.sp) := by
  rw [frameMember?_eq hframe, Option.map_eq_none_iff, List.find?_eq_none]
  simp only [decide_eq_true_eq]

theorem frameMember?_eq_some_iff (hframe : m.frame = some frame) {v : Address × String × UInt64} :
    m.frameMember? a = some v ↔ ∃ before s after, m.slots frame = before ++ s :: after ∧
      (∀ t ∈ before, ¬ t.Contains (m.arch.distance a frame.sp)) ∧ s.Contains (m.arch.distance a frame.sp) ∧
      v = (frame.slotStart m.arch s, s.name, s.size) := by
  rw [frameMember?_eq hframe, Option.map_eq_some_iff]
  simp only [List.find?_eq_some_iff_append, decide_eq_true_eq, Bool.not_eq_true', decide_eq_false_iff_not]
  constructor
  · rintro ⟨s, ⟨hs, before, after, hslots, hbefore⟩, rfl⟩
    exact ⟨before, s, after, hslots, hbefore, hs, rfl⟩
  · rintro ⟨before, s, after, hslots, hbefore, hs, rfl⟩
    exact ⟨s, ⟨hs, before, after, hslots, hbefore⟩, rfl⟩

/-- An address in a slot that is apart from the others is one of that slot. -/
theorem frameMember?_of_isApart (hframe : m.frame = some frame) (hmem : s ∈ m.slots frame)
    (hapart : s.IsApart (m.slots frame)) (hs : s.Contains (m.arch.distance a frame.sp)) :
    m.frameMember? a = some (frame.slotStart m.arch s, s.name, s.size) := by
  rw [frameMember?_eq hframe, FrameMember.find?_eq_some_of_isApart hmem hapart hs, Option.map_some]

/-! ## Which variable an operand registers -/

theorem trackAt_of_named {name : String} (h : m.listing.nameAt? a = some name) (size : UInt64) :
    m.trackAt size a = m.registerVariable a name ((m.listing.symbolSize? a).getD size) := by
  rw [trackAt, trackSymbol?, h]
  rfl

theorem trackAt_of_frameMember? {start : Address} {name : String} {width : UInt64} (h : m.listing.nameAt? a = none)
    (hslot : m.frameMember? a = some (start, name, width)) (size : UInt64) :
    m.trackAt size a = m.registerVariable start name width := by
  rw [trackAt, trackSymbol?, h, hslot]
  rfl

/-- The slot of an address in a frame is the first whose offsets contain the distance of the address from the stack
pointer on entry, and the address is in the range of that slot. An operand at an address without a name of its own
registers the slot. So all such operands in a slot that is apart from the others register the same variable, as long as
the frame is the current one. -/
theorem frameMember?_exact (hframe : m.frame = some frame) :
    (∀ a, m.frameMember? a = none ↔ ∀ s ∈ m.slots frame, ¬ s.Contains (m.arch.distance a frame.sp)) ∧
    (∀ a v, m.frameMember? a = some v ↔ ∃ before s after, m.slots frame = before ++ s :: after ∧
      (∀ t ∈ before, ¬ t.Contains (m.arch.distance a frame.sp)) ∧ s.Contains (m.arch.distance a frame.sp) ∧
      v = (frame.slotStart m.arch s, s.name, s.size)) ∧
    (∀ (s : FrameMember) o, s.Contains o ↔
      (s.offset.toInt ≤ o ∧ o < s.offset.toInt + s.size.toNat) ∧ s.offset.toInt + s.size.toNat < 2 ^ 63) ∧
    (∀ a start name size, m.frameMember? a = some (start, name, size) →
      start.toNat + size.toNat ≤ 2 ^ (8 * m.pointerSize) →
      start ≤ m.arch.wrap a ∧ (m.arch.wrap a).toNat < start.toNat + size.toNat) ∧
    ∀ s ∈ m.slots frame, s.IsApart (m.slots frame) → ∀ (m' : Machine) (o : Operand) (r : MemoryReference),
      m'.frame = m.frame → m'.listing = m.listing → m'.arch = m.arch → o.kind = .memory r →
      s.Contains (m.arch.distance (m'.referenceAddress r) frame.sp) →
      (m.listing.nameAt? (m'.referenceAddress r) = none →
        m'.trackOperand o = m'.registerVariable (frame.slotStart m.arch s) s.name s.size) ∧
      ∀ name, m.listing.nameAt? (m'.referenceAddress r) = some name →
        m'.trackOperand o = m'.registerVariable (m'.referenceAddress r) name
          ((m.listing.symbolSize? (m'.referenceAddress r)).getD o.size) := by
  refine ⟨fun a => frameMember?_eq_none_iff hframe, fun a v => frameMember?_eq_some_iff hframe,
    fun s o => FrameMember.contains_iff, fun a start name size hslot hfits => ?_, ?_⟩
  · obtain ⟨_, s, _, -, -, hs, heq⟩ := (frameMember?_eq_some_iff hframe).1 hslot
    cases heq
    exact slotStart_le_of_contains hs hfits
  · intro s hmem hapart m' o r hframe' hlisting harch hkind hs
    have hslots : m'.slots frame = m.slots frame := by rw [slots, slots, hlisting]
    rw [hframe] at hframe'
    rw [← hslots] at hmem hapart
    rw [← harch] at hs
    rw [trackOperand_memory hkind, ← hlisting, ← harch]
    exact ⟨fun h => trackAt_of_frameMember? h (frameMember?_of_isApart hframe' hmem hapart hs) _,
      fun name h => trackAt_of_named h _⟩

/-- A local in 32 bits whose range goes past the largest address: the operands on both sides of zero register it. -/
theorem frameMember?_across_top :
    let f : FunctionRecord := ⟨0x1000, 0x1010, [⟨"return", 0, 4⟩, ⟨"buffer", -16, 16⟩], [], none⟩
    let m := { Machine.fresh { Listing.empty .x86 with functions := [f] } {} with frame := some ⟨0x1000, 8⟩ }
    m.trackOperand (.ofMemory "[0FFFFFFF8h]" 4 none 0xFFFFFFF8) = m.registerVariable 0xFFFFFFF8 "buffer" 16 ∧
      m.trackOperand (.ofMemory "[4]" 4 none 4) = m.registerVariable 0xFFFFFFF8 "buffer" 16 := by
  intro f m
  obtain ⟨-, -, -, -, hregister⟩ := frameMember?_exact (m := m) rfl
  have hapart : FrameMember.IsApart ⟨"buffer", -16, 16⟩ (m.slots ⟨0x1000, 8⟩) := by
    have hslots : m.slots ⟨0x1000, 8⟩ = f.frame := by decide +kernel
    intro t ht hne o hs ht'
    rw [hslots, List.mem_cons, List.mem_singleton] at ht
    obtain rfl | rfl := ht
    · have hbelow : o < 0 := hs.2
      have habove : 0 ≤ o := ht'.1
      omega
    · exact hne rfl
  have hmem : (⟨"buffer", -16, 16⟩ : FrameMember) ∈ m.slots ⟨0x1000, 8⟩ := by decide +kernel
  have hnone : ∀ a, m.listing.nameAt? a = none := fun a => rfl
  have hstart : Frame.slotStart ⟨0x1000, 8⟩ m.arch ⟨"buffer", -16, 16⟩ = 0xFFFFFFF8 := by decide +kernel
  rw [← hstart]
  constructor
  · exact (hregister _ hmem hapart m (.ofMemory "[0FFFFFFF8h]" 4 none 0xFFFFFFF8) ⟨none, none, none, 1, 0xFFFFFFF8⟩
      rfl rfl rfl rfl (by decide +kernel)).1 (hnone _)
  · exact (hregister _ hmem hapart m (.ofMemory "[4]" 4 none 4) ⟨none, none, none, 1, 4⟩
      rfl rfl rfl rfl (by decide +kernel)).1 (hnone _)

/-- A location in the middle of a local that has a name of its own is a variable of its own. -/
theorem trackOperand_named_in_slot :
    let f : FunctionRecord := ⟨0x1000, 0x1010, [⟨"buffer", -16, 16⟩], [], none⟩
    let l := { Listing.empty .x86 with functions := [f] }.addSymbol 0x1FF4 ⟨"g", none⟩
    let m := { Machine.fresh l {} with frame := some ⟨0x1000, 0x2000⟩ }
    let first : Operand := .ofMemory "[1FF0h]" 4 none 0x1FF0
    let second : Operand := .ofMemory "[1FF4h]" 4 none 0x1FF4
    m.frameMember? 0x1FF0 = some (0x1FF0, "buffer", 16) ∧ m.frameMember? 0x1FF4 = some (0x1FF0, "buffer", 16) ∧
      m.trackOperand first = m.registerVariable 0x1FF0 "buffer" 16 ∧
      m.trackOperand second = m.registerVariable 0x1FF4 "g" 4 ∧
      (m.trackOperand second).known[(0x1FF0 : Address)]? = none := by
  intro f l m first second
  have hfirst : m.trackOperand first = m.registerVariable 0x1FF0 "buffer" 16 := by
    rw [trackOperand_memory rfl, show m.referenceAddress _ = 0x1FF0 by decide +kernel]
    exact trackAt_of_frameMember? (by decide +kernel) (by decide +kernel) _
  have hsecond : m.trackOperand second = m.registerVariable 0x1FF4 "g" 4 := by
    rw [trackOperand_memory rfl, show m.referenceAddress _ = 0x1FF4 by decide +kernel]
    exact trackAt_of_named (by decide +kernel) _
  refine ⟨by decide +kernel, by decide +kernel, hfirst, hsecond, ?_⟩
  rw [hsecond]
  show ((∅ : Variables).register 0x1FF4 "g" 4)[(0x1FF0 : Address)]? = none
  rw [Variables.register, Std.ExtTreeMap.contains_empty, if_neg Bool.false_ne_true, Std.ExtTreeMap.getElem?_insert,
    if_neg (by decide), Std.ExtTreeMap.getElem?_empty]

end Machine
end PathReplay
