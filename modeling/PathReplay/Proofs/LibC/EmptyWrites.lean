import PathReplay.LibC.Basic
import PathReplay.Proofs.Machine.Histories

/-!
# Writes of no bytes

A write of no bytes changes no memory, but it is in the way of every variable that has bytes on both sides of the place
where it happens, so these remember what they still hold.

* `Variable.overlaps_zero_iff` : which variables a write of no bytes is in the way of;
* `Machine.write_nil`, `Machine.write_nil_eq_self_iff` : what it leaves of a machine;
* `LibC.run_zero`, `LibC.call_zero` : copies and fills of length zero write no bytes and do nothing else.
-/

namespace PathReplay

namespace Variable

variable {v : Variable} {a : Address}

/-- An address has bytes of the variable on both sides of it. -/
def IsSplitAt (v : Variable) (a : Address) : Prop := v.address < a ∧ a < v.stop

instance (v : Variable) (a : Address) : Decidable (v.IsSplitAt a) := inferInstanceAs (Decidable (_ ∧ _))

theorem overlaps_zero_iff : v.overlaps a 0 = true ↔ v.IsSplitAt a := by
  have hend : Word.saturatingAdd a (UInt64.ofNat 0) = a := by
    rw [← UInt64.toNat_inj, Word.toNat_saturatingAdd, show (UInt64.ofNat 0).toNat = 0 from rfl, Nat.add_zero]
    exact Nat.min_eq_left (Nat.le_pred_of_lt a.toNat_lt)
  rw [overlaps, hend, Bool.and_eq_true, decide_eq_true_iff, decide_eq_true_iff, IsSplitAt, and_comm]

theorem remember_ne (v : Variable) (m : Memory) : v.remember m ≠ v := fun h => by
  have hsize := congrArg (fun v : Variable => v.history.size) h
  rw [remember, Array.size_push] at hsize
  exact Nat.succ_ne_self _ hsize

end Variable

/-- The variables after a write of no bytes: the ones that it splits remember what they hold. -/
def Variables.splitAt (vs : Variables) (m : Memory) (a : Address) : Variables :=
  vs.map fun _ v => if v.IsSplitAt a then v.remember m else v

theorem Variables.getElem?_splitAt (vs : Variables) (m : Memory) (a k : Address) :
    (vs.splitAt m a)[k]? = vs[k]?.map fun v => if v.IsSplitAt a then v.remember m else v := by
  rw [splitAt, Std.ExtTreeMap.getElem?_map]

theorem Variables.splitAt_eq_self_iff {vs : Variables} {m : Memory} {a : Address} :
    vs.splitAt m a = vs ↔ ∀ (k : Address) v, vs[k]? = some v → ¬v.IsSplitAt a := by
  constructor
  · intro h k v hv hsplit
    have hk := vs.getElem?_splitAt m a k
    rw [h, hv, Option.map_some, if_pos hsplit] at hk
    exact v.remember_ne m (Option.some.inj hk).symm
  · intro h
    refine Std.ExtTreeMap.ext_getElem? fun k => ?_
    rw [getElem?_splitAt]
    cases hk : vs[k]? with
    | none => rfl
    | some v => rw [Option.map_some, if_neg (h k v hk)]

namespace Machine

/-- A write of no bytes changes only what is known of the variables that it splits. -/
theorem write_nil (m : Machine) (a : Address) : m.write a [] = { m with known := m.known.splitAt m.memory a } := by
  have hknown : m.known.recordWrite m.memory a 0 = m.known.splitAt m.memory a := by
    simp only [Variables.recordWrite, Variables.splitAt, Variable.overlaps_zero_iff]
  rw [write, Memory.write_nil, List.length_nil, hknown]

theorem write_nil_eq_self_iff {m : Machine} {a : Address} :
    m.write a [] = m ↔ ∀ (k : Address) v, m.known[k]? = some v → ¬v.IsSplitAt a := by
  rw [write_nil, ← Variables.splitAt_eq_self_iff (m := m.memory)]
  exact ⟨congrArg Machine.known, fun h => congrArg (fun known => { m with known }) h⟩

end Machine

namespace LibC

/-- The functions that write as many bytes or units as their third argument says. -/
def countedNames : List String := ["memcpy", "memmove", "memset", "strncpy", "wcsncpy"]

theorem run_zero {r : Routine} (hr : r ∈ [Routine.memcpy, .memset, .strncpy]) (unit : Nat) {args : List UInt64}
    (hzero : args.getD 2 0 = 0) (m : Machine) : r.run unit args m = (args.getD 0 0, m.write (args.getD 0 0) []) := by
  have hbounded : m.memory.bounded 0 = 0 := by rw [Memory.bounded, UInt64.toNat_min]; exact Nat.zero_min _
  have hlength : m.memory.bounded (Word.saturatingMul 0 (UInt64.ofNat unit)) = 0 := by
    rw [show Word.saturatingMul 0 (UInt64.ofNat unit) = 0 from ?_, hbounded]
    rw [← UInt64.toNat_inj, Word.toNat_saturatingMul, UInt64.toNat_zero, Nat.zero_mul, Nat.zero_min]
  simp only [List.mem_cons, List.not_mem_nil, or_false] at hr
  rcases hr with rfl | rfl | rfl
  · rw [Routine.run, hzero, hbounded, Memory.read_zero]
  · rw [Routine.run, hzero, hbounded, List.replicate_zero]
  · have hpadded : ∀ data, padded data 0 = [] := fun data => List.length_eq_zero_iff.1 (length_padded data 0)
    rw [Routine.run, hzero, hlength, hpadded]

/-- A copy or a fill of length zero returns its destination. It changes nothing of the machine except that variables
with bytes on both sides of the destination remember what they hold; without any such variable the machine stays as it
is. -/
theorem call_zero {name : String} (hname : bareName name ∈ countedNames) :
    ∃ e, find? name = some e ∧ ∀ (called : String) (args : List UInt64) (m : Machine), args.getD 2 0 = 0 →
      let dst := args.getD 0 0
      e.routine.call called args m = (dst, { m with known := m.known.splitAt m.memory dst }) ∧
        ((e.routine.call called args m).2 = m ↔ ∀ (k : Address) v, m.known[k]? = some v → ¬v.IsSplitAt dst) := by
  have hcatalogue : ∀ bare ∈ countedNames, ∃ e ∈ catalogue.lookup bare,
      e.routine ∈ [Routine.memcpy, .memset, .strncpy] := by decide +kernel
  obtain ⟨e, he, hroutine⟩ := hcatalogue _ hname
  refine ⟨e, he, fun called args m hzero => ?_⟩
  have hcall : e.routine.call called args m = (args.getD 0 0, m.write (args.getD 0 0) []) :=
    run_zero hroutine (unitOf called) hzero m
  rw [hcall]
  exact ⟨congrArg (Prod.mk _) (m.write_nil _), Machine.write_nil_eq_self_iff⟩

/-- A copy of no bytes to where a variable starts, or to its end, does nothing. -/
theorem call_memmove_none :
    let m := (Machine.fresh (.empty .x86) {}).registerVariable 0x1000 "v" 4
    ∃ e, find? "_memmove" = some e ∧ e.routine.call "memmove" [0x1000, 0x2000, 0] m = (0x1000, m) ∧
      e.routine.call "memmove" [0x1004, 0x2000, 0] m = (0x1004, m) := by
  intro m
  have hwhole : ∀ a : Address, ¬Variable.IsSplitAt ⟨"v", 0x1000, 4, #[]⟩ a →
      ∀ (k : Address) v, m.known[k]? = some v → ¬v.IsSplitAt a := fun a ha k v hk => by
    have hknown : m.known = (∅ : Variables).insert 0x1000 ⟨"v", 0x1000, 4, #[]⟩ := rfl
    rw [hknown, Std.ExtTreeMap.getElem?_insert] at hk
    split at hk
    · exact Option.some.inj hk ▸ ha
    · rw [Std.ExtTreeMap.getElem?_empty] at hk
      cases hk
  have hname : bareName "_memmove" ∈ countedNames := by decide +kernel
  obtain ⟨e, he, hcall⟩ := call_zero hname
  refine ⟨e, he, ?_, ?_⟩
  · obtain ⟨hrun, hself⟩ := hcall "memmove" [0x1000, 0x2000, 0] m rfl
    exact Prod.ext (congrArg Prod.fst hrun) (hself.2 (hwhole 0x1000 (by decide)))
  · obtain ⟨hrun, hself⟩ := hcall "memmove" [0x1004, 0x2000, 0] m rfl
    exact Prod.ext (congrArg Prod.fst hrun) (hself.2 (hwhole 0x1004 (by decide)))

/-- A copy of no bytes into the middle of a variable is added to its history. -/
theorem call_memcpy_none_inside :
    let m := (Machine.fresh (.empty .x86) {}).registerVariable 0x1000 "v" 4
    let after := (Routine.memcpy.call "memcpy" [0x1002, 0x2000, 0] m).2
    m.known[(0x1000 : Address)]? = some ⟨"v", 0x1000, 4, #[]⟩ ∧
      after.known[(0x1000 : Address)]? = some ⟨"v", 0x1000, 4, #[[0, 0, 0, 0]]⟩ := by
  intro m after
  have hv : m.known[(0x1000 : Address)]? = some ⟨"v", 0x1000, 4, #[]⟩ :=
    Variables.getElem?_register_self Std.ExtTreeMap.contains_empty "v" 4
  have hafter : after = m.write 0x1002 [] := by
    have hmemcpy : Routine.memcpy ∈ [Routine.memcpy, .memset, .strncpy] := by decide
    have hzero : [(0x1002 : UInt64), 0x2000, 0].getD 2 0 = 0 := rfl
    exact congrArg Prod.snd (run_zero hmemcpy (unitOf "memcpy") hzero m)
  have hzero : ∀ x, m.memory.byte x = 0 := Memory.byte_load [] _ _
  have hread : m.memory.read 0x1000 4 = [0, 0, 0, 0] := by
    rw [Memory.read_eq_map, List.map_congr_left fun i _ => hzero _]
    rfl
  refine ⟨hv, ?_⟩
  rw [hafter, Machine.write_nil, Variables.getElem?_splitAt, hv, Option.map_some, if_pos (by decide)]
  exact congrArg (fun old : Bytes => some (Variable.mk "v" 0x1000 4 #[old])) hread

end LibC
end PathReplay
