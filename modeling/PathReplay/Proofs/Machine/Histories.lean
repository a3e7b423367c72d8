import PathReplay.Machine.Tracking
import PathReplay.Proofs.Memory.Contents

/-!
# Histories of variables

Writes, pushes and registrations in any order, while nothing written or registered reaches the last address.

* `Variable.overlaps_iff` : there, a variable is in the way of a write if neither ends before the other starts;
* `reaches_iff_overlaps` : that is the case if the two share an address;
* `getElem?_known_step` : a step keeps every known variable, with its name, its address and its size, and adds
  what it held to its history if the step writes one of its bytes;
* `getElem?_known_run` : so the history of a variable is what it held before each step that reached it;
* `read_run_of_not_reached` : between two of these steps it holds the same;
* `history_of_registered` : from its registration on, a history with the current contents lists all that a
  variable held.
-/

namespace PathReplay

namespace Variables

theorem getElem?_recordWrite (vs : Variables) (m : Memory) (a : Address) (length : Nat) (b : Address) :
    (vs.recordWrite m a length)[b]? = vs[b]?.map fun v => if v.overlaps a length then v.remember m else v := by
  rw [recordWrite, Std.ExtTreeMap.getElem?_map]

theorem getElem?_register_of_known {vs : Variables} {b : Address} {v : Variable} (hv : vs[b]? = some v)
    (a : Address) (name : String) (size : UInt64) : (vs.register a name size)[b]? = some v := by
  rw [register]
  split
  · exact hv
  · rename_i hnew
    -- nothing was known at the new address, so it is another one
    have hne : a ≠ b := by
      rintro rfl
      exact hnew (by rw [Std.ExtTreeMap.contains_eq_isSome_getElem?, hv]; rfl)
    rw [Std.ExtTreeMap.getElem?_insert, if_neg (by simpa using hne), hv]

theorem getElem?_register_self {vs : Variables} {a : Address} (hnew : vs.contains a = false) (name : String)
    (size : UInt64) : (vs.register a name size)[a]? = some ⟨name, a, max size 1, #[]⟩ := by
  rw [register, hnew, if_neg Bool.false_ne_true, Std.ExtTreeMap.getElem?_insert_self]

end Variables

namespace Variable

/-- Below the last address, a variable is in the way of a write if neither ends before the other starts. -/
theorem overlaps_iff {v : Variable} {a : Address} {length : Nat}
    (hv : v.address.toNat + v.size.toNat ≤ 2 ^ 64 - 1) (hw : a.toNat + length ≤ 2 ^ 64 - 1) :
    v.overlaps a length = true ↔
      a.toNat < v.address.toNat + v.size.toNat ∧ v.address.toNat < a.toNat + length := by
  have hlast : UInt64.size - 1 = 2 ^ 64 - 1 := rfl
  have hlength : (UInt64.ofNat length).toNat = length := by
    rw [UInt64.toNat_ofNat', Nat.mod_eq_of_lt (by omega)]
  rw [overlaps, stop, Bool.and_eq_true, decide_eq_true_iff, decide_eq_true_iff, UInt64.lt_iff_toNat_lt,
    UInt64.lt_iff_toNat_lt, Word.toNat_saturatingAdd, Word.toNat_saturatingAdd, hlength, hlast,
    Nat.min_eq_left hv, Nat.min_eq_left hw]

end Variable

namespace Machine

/-! ## Runs -/

/-- What a program does to the contents of variables and to what is known. -/
inductive Op where
  | write (a : Address) (data : Bytes)
  | writeWord (a : Address) (value : UInt64) (width : Nat)
  | push (value : UInt64)
  | register (a : Address) (name : String) (size : UInt64)

def step (m : Machine) : Op → Machine
  | .write a data => m.write a data
  | .writeWord a value width => m.writeWord a value width
  | .push value => m.push value
  | .register a name size => m.registerVariable a name size

def run (m : Machine) (ops : List Op) : Machine := ops.foldl step m

/-- The operations of a run, each with the machine before it. -/
def steps (m : Machine) : List Op → List (Machine × Op)
  | [] => []
  | op :: ops => (m, op) :: (m.step op).steps ops

def written? (m : Machine) : Op → Option (Address × Bytes)
  | .write a data => some (a, data)
  | .writeWord a value width => some (a, Word.toBytes value (min width 8))
  | .push value =>
    some (m.arch.wrap (m.sp - UInt64.ofNat m.pointerSize), Word.toBytes value (min m.pointerSize 8))
  | .register .. => none

/-- What an operation writes, if it writes, is not empty and ends at or below the last address. -/
def Fits (m : Machine) (op : Op) : Prop :=
  ∀ w ∈ m.written? op, w.2 ≠ [] ∧ w.1.toNat + w.2.length ≤ 2 ^ 64 - 1

/-- An operation writes one of the `n` bytes from an address on. -/
def Reaches (m : Machine) (op : Op) (b : Address) (n : Nat) : Prop :=
  ∃ w ∈ m.written? op, ∃ i < w.2.length, ∃ j < n, w.1.toNat + i = b.toNat + j

instance (m : Machine) (op : Op) (b : Address) (n : Nat) : Decidable (m.Reaches op b n) :=
  inferInstanceAs (Decidable (∃ w ∈ m.written? op, ∃ i < w.2.length, ∃ j < n, w.1.toNat + i = b.toNat + j))

/-- The steps of a run that write one of the `n` bytes from an address on. -/
def reaching (m : Machine) (ops : List Op) (b : Address) (n : Nat) : List (Machine × Op) :=
  (m.steps ops).filter fun s => s.1.Reaches s.2 b n

/-- What a range of bytes held before each step of a run that reached it, oldest first. -/
def replaced (m : Machine) (ops : List Op) (b : Address) (n : Nat) : List Bytes :=
  (m.reaching ops b n).map fun s => s.1.memory.read b n

variable {m : Machine} {op : Op} {v : Variable}

/-! ## A step -/

/-- An operation writes to memory, after what is known has noted it, or it registers a variable. -/
theorem step_cases (m : Machine) (op : Op) :
    (∃ a data, m.written? op = some (a, data) ∧ (m.step op).memory = m.memory.write a data ∧
      (m.step op).known = m.known.recordWrite m.memory a data.length) ∨
    (∃ a name size, m.written? op = none ∧ m.step op = m.registerVariable a name size) := by
  cases op with
  | write a data => exact .inl ⟨a, data, rfl, rfl, rfl⟩
  | writeWord a value width => exact .inl ⟨a, _, rfl, rfl, rfl⟩
  | push value => exact .inl ⟨_, _, rfl, rfl, rfl⟩
  | register a name size => exact .inr ⟨a, name, size, rfl, rfl⟩

theorem not_reaches_of_written?_eq_none (h : m.written? op = none) (b : Address) (n : Nat) :
    ¬ m.Reaches op b n := by
  rintro ⟨w, hw, -⟩
  rw [h] at hw
  cases hw

theorem reaches_iff {a b : Address} {data : Bytes} {n : Nat} (hop : m.written? op = some (a, data))
    (hdata : data ≠ []) (hn : 0 < n) :
    m.Reaches op b n ↔ a.toNat < b.toNat + n ∧ b.toNat < a.toNat + data.length := by
  have hlength : 0 < data.length := List.length_pos_iff.2 hdata
  constructor
  · rintro ⟨w, hw, i, hi, j, hj, heq⟩
    obtain rfl : (a, data) = w := Option.some.inj (hop.symm.trans hw)
    dsimp only at hi heq
    omega
  · rintro ⟨hleft, hright⟩
    -- the greater of the two starts is an address of both
    exact ⟨(a, data), hop, b.toNat - a.toNat, by dsimp only; omega, a.toNat - b.toNat, by omega,
      by dsimp only; omega⟩

theorem reaches_iff_overlaps {a : Address} {data : Bytes} (hop : m.written? op = some (a, data)) (hfit : m.Fits op)
    (hsize : 0 < v.size.toNat) (hend : v.address.toNat + v.size.toNat ≤ 2 ^ 64 - 1) :
    m.Reaches op v.address v.size.toNat ↔ v.overlaps a data.length = true := by
  obtain ⟨hdata, hlast⟩ := hfit _ hop
  rw [reaches_iff hop hdata hsize, Variable.overlaps_iff hend hlast]

theorem read_step_of_not_reaches {b : Address} {n : Nat} (hfit : m.Fits op) (hb : b.toNat + n ≤ 2 ^ 64 - 1)
    (h : ¬ m.Reaches op b n) : (m.step op).memory.read b n = m.memory.read b n := by
  rcases m.step_cases op with ⟨a, data, hop, hmemory, -⟩ | ⟨a, name, size, -, hstep⟩
  · obtain ⟨hdata, hlast⟩ := hfit _ hop
    dsimp only at hlast
    -- an empty range is not reached by what is written around it
    rcases Nat.eq_zero_or_pos n with rfl | hn
    · rw [Memory.read_zero, Memory.read_zero]
    · rw [reaches_iff hop hdata hn] at h
      rw [hmemory, Memory.read_write_of_disjoint _ (by omega) (by omega) (by omega)]
  · rw [hstep]
    rfl

theorem getElem?_known_step {k : Address} (hfit : m.Fits op) (hsize : 0 < v.size.toNat)
    (hend : v.address.toNat + v.size.toNat ≤ 2 ^ 64 - 1) (hv : m.known[k]? = some v) :
    (m.step op).known[k]? =
      some (if m.Reaches op v.address v.size.toNat then v.remember m.memory else v) := by
  rcases m.step_cases op with ⟨a, data, hop, -, hknown⟩ | ⟨a, name, size, hop, hstep⟩
  · rw [hknown, Variables.getElem?_recordWrite, hv, Option.map_some]
    simp only [reaches_iff_overlaps hop hfit hsize hend]
  · rw [hstep, if_neg (not_reaches_of_written?_eq_none hop _ _)]
    exact Variables.getElem?_register_of_known hv a name size

/-! ## A run -/

theorem steps_append (m : Machine) (before after : List Op) :
    m.steps (before ++ after) = m.steps before ++ (m.run before).steps after := by
  induction before generalizing m with
  | nil => rfl
  | cons op before ih => exact congrArg ((m, op) :: ·) (ih (m.step op))

theorem run_append (m : Machine) (before after : List Op) :
    m.run (before ++ after) = (m.run before).run after := List.foldl_append

theorem reaching_append (m : Machine) (before after : List Op) (b : Address) (n : Nat) :
    m.reaching (before ++ after) b n = m.reaching before b n ++ (m.run before).reaching after b n := by
  rw [reaching, steps_append, List.filter_append]
  rfl

theorem length_replaced (m : Machine) (ops : List Op) (b : Address) (n : Nat) :
    (m.replaced ops b n).length = (m.reaching ops b n).length := List.length_map _

theorem replaced_cons (m : Machine) (op : Op) (ops : List Op) (b : Address) (n : Nat) :
    m.replaced (op :: ops) b n =
      if m.Reaches op b n then m.memory.read b n :: (m.step op).replaced ops b n
      else (m.step op).replaced ops b n := by
  rw [replaced, reaching, steps, List.filter_cons]
  by_cases h : m.Reaches op b n
  · rw [if_pos (decide_eq_true h), if_pos h]
    rfl
  · rw [if_neg (by simpa using h), if_neg h]
    rfl

theorem replaced_append (m : Machine) (before after : List Op) (b : Address) (n : Nat) :
    m.replaced (before ++ after) b n = m.replaced before b n ++ (m.run before).replaced after b n := by
  rw [replaced, reaching_append, List.map_append]
  rfl

theorem getElem?_known_run {k : Address} {ops : List Op} (hfit : ∀ s ∈ m.steps ops, s.1.Fits s.2)
    (hsize : 0 < v.size.toNat) (hend : v.address.toNat + v.size.toNat ≤ 2 ^ 64 - 1) (hv : m.known[k]? = some v) :
    (m.run ops).known[k]? =
      some { v with history := v.history ++ (m.replaced ops v.address v.size.toNat).toArray } := by
  -- every step may add to the history, so the induction is over all that may be known of the variable
  induction ops generalizing m v with
  | nil => exact hv.trans (congrArg some (by simp [replaced, reaching, steps]))
  | cons op ops ih =>
    rw [steps, List.forall_mem_cons] at hfit
    have hstep := getElem?_known_step hfit.1 hsize hend hv
    rw [replaced_cons]
    split at hstep
    · rename_i h
      rw [if_pos h]
      refine (ih (v := v.remember m.memory) hfit.2 hsize hend hstep).trans (congrArg some ?_)
      simp [Variable.remember, Variable.data]
    · rename_i h
      rw [if_neg h]
      exact ih hfit.2 hsize hend hstep

/-- What bytes hold first is what the first step to reach them finds, or what they hold in the end. -/
theorem head?_replaced {ops : List Op} {b : Address} {n : Nat} (hfit : ∀ s ∈ m.steps ops, s.1.Fits s.2)
    (hb : b.toNat + n ≤ 2 ^ 64 - 1) :
    (m.replaced ops b n ++ [(m.run ops).memory.read b n]).head? = some (m.memory.read b n) := by
  induction ops generalizing m with
  | nil => rfl
  | cons op ops ih =>
    rw [steps, List.forall_mem_cons] at hfit
    rw [replaced_cons]
    by_cases h : m.Reaches op b n
    · rw [if_pos h]
      rfl
    · rw [if_neg h, ← read_step_of_not_reaches hfit.1 hb h]
      exact ih hfit.2

/-- What bytes hold after a part of a run stands behind what was replaced in that part. -/
theorem getElem?_replaced {before after : List Op} {b : Address} {n : Nat}
    (hfit : ∀ s ∈ m.steps (before ++ after), s.1.Fits s.2) (hb : b.toNat + n ≤ 2 ^ 64 - 1) :
    (m.replaced (before ++ after) b n ++ [(m.run (before ++ after)).memory.read b n])[
      (m.replaced before b n).length]? = some ((m.run before).memory.read b n) := by
  rw [steps_append, List.forall_mem_append] at hfit
  rw [replaced_append, run_append, List.append_assoc, List.getElem?_append_right (Nat.le_refl _), Nat.sub_self,
    ← List.head?_eq_getElem?]
  exact head?_replaced hfit.2 hb

theorem read_run_of_not_reached {ops : List Op} {b : Address} {n : Nat} (hfit : ∀ s ∈ m.steps ops, s.1.Fits s.2)
    (hb : b.toNat + n ≤ 2 ^ 64 - 1) (h : m.reaching ops b n = []) :
    (m.run ops).memory.read b n = m.memory.read b n := by
  have hhead := head?_replaced hfit hb
  rw [replaced, h] at hhead
  exact Option.some.inj hhead

/-- From its registration on, at any machine and with any run behind it, a variable is known under its address with
its name and size, and its history is what it held just before each step that wrote one of its bytes. With the
current contents this is all that it held, in order: what it holds at a point of the run stands behind what was
replaced before that point, and it holds the same until the next step that reaches it. -/
theorem history_of_registered {a : Address} {name : String} {size : UInt64} {ops : List Op}
    (hnew : m.known.contains a = false) (hend : a.toNat + (max size 1).toNat ≤ 2 ^ 64 - 1)
    (hfit : ∀ s ∈ (m.registerVariable a name size).steps ops, s.1.Fits s.2) :
    let start := m.registerVariable a name size
    let n := (max size 1).toNat
    let history (ops : List Op) := (start.reaching ops a n).map fun s => s.1.memory.read a n
    (∀ before after, before ++ after = ops →
      (start.run before).known[a]? = some ⟨name, a, max size 1, (history before).toArray⟩ ∧
      (history ops ++ [(start.run ops).memory.read a n])[(start.reaching before a n).length]? =
        some ((start.run before).memory.read a n)) ∧
    ∀ before between after, before ++ between ++ after = ops → (start.run before).reaching between a n = [] →
      (start.run (before ++ between)).memory.read a n = (start.run before).memory.read a n := by
  intro start n history
  have hsize : 0 < (max size 1).toNat := by
    rw [Word.toNat_max]
    exact Nat.lt_of_lt_of_le Nat.one_pos (Nat.le_max_right _ _)
  have hv : start.known[a]? = some ⟨name, a, max size 1, #[]⟩ := Variables.getElem?_register_self hnew name size
  refine ⟨?_, ?_⟩
  · rintro before after rfl
    refine ⟨?_, ?_⟩
    · rw [steps_append, List.forall_mem_append] at hfit
      have h := getElem?_known_run hfit.1 hsize hend hv
      rwa [Array.empty_append] at h
    · have h := getElem?_replaced hfit hend
      rwa [length_replaced] at h
  · rintro before between after rfl hnone
    rw [List.append_assoc, steps_append, List.forall_mem_append, steps_append, List.forall_mem_append] at hfit
    rw [run_append]
    exact read_run_of_not_reached hfit.2.1 hend hnone

/-- A write across a page boundary reaches the first half of a variable, one to another variable inside it reaches
it too, and a push does not. -/
theorem history_of_overlapping_writes :
    let ops : List Op := [.write 0xFFE [1, 2, 3, 4], .register 0x1002 "inner" 1, .writeWord 0x1002 0xAA 1,
      .push 5]
    let m := fresh (.empty .x86_64) {}
    m.known.contains 0x1000 = false ∧ (0x1000 : Address).toNat + (max 4 1 : UInt64).toNat ≤ 2 ^ 64 - 1 ∧
      (∀ s ∈ (m.registerVariable 0x1000 "outer" 4).steps ops, s.1.Fits s.2) ∧
      ((m.registerVariable 0x1000 "outer" 4).run ops).known[(0x1000 : Address)]? =
        some ⟨"outer", 0x1000, 4, #[[0, 0, 0, 0], [3, 4, 0, 0]]⟩ := by
  intro ops m
  have hnew : m.known.contains 0x1000 = false := Std.ExtTreeMap.contains_empty
  have hend : (0x1000 : Address).toNat + (max 4 1 : UInt64).toNat ≤ 2 ^ 64 - 1 := by decide
  have hfit : ∀ s ∈ (m.registerVariable 0x1000 "outer" 4).steps ops, s.1.Fits s.2 := by
    simp only [ops, steps, List.forall_mem_cons, Fits, written?, Option.mem_def, Option.some.injEq, forall_eq']
    decide +kernel
  refine ⟨hnew, hend, hfit, ?_⟩
  have hzero : ∀ x, m.memory.byte x = 0 := Memory.byte_load [] _ _
  have hwritten : ∀ x, (m.memory.write 0xFFE [1, 2, 3, 4]).byte x = ([1, 2, 3, 4][(x - 0xFFE).toNat]?).getD 0 := by
    intro x
    rw [Memory.byte_write _ _ _ (by decide), hzero]
  have hfirst : m.memory.read 0x1000 4 = [0, 0, 0, 0] := by
    rw [Memory.read_eq_map, List.map_congr_left fun i _ => hzero _]
    rfl
  have hsecond : (m.memory.write 0xFFE [1, 2, 3, 4]).read 0x1000 4 = [3, 4, 0, 0] := by
    rw [Memory.read_eq_map, List.map_congr_left fun i _ => hwritten _]
    rfl
  have hreplaced : (m.registerVariable 0x1000 "outer" 4).replaced ops 0x1000 4 =
      [m.memory.read 0x1000 4, (m.memory.write 0xFFE [1, 2, 3, 4]).read 0x1000 4] := by
    rw [replaced_cons, if_pos (by decide +kernel), replaced_cons, if_neg (by decide +kernel), replaced_cons,
      if_pos (by decide +kernel), replaced_cons, if_neg (by decide +kernel)]
    rfl
  rw [hfirst, hsecond] at hreplaced
  rw [((history_of_registered hnew hend hfit).1 ops [] (List.append_nil _)).1]
  exact congrArg (fun history : List Bytes => some (Variable.mk "outer" 0x1000 4 history.toArray)) hreplaced

end Machine
end PathReplay
