import Mathlib.Data.List.TakeWhile
import PathReplay.Graph.Replay

/-!
# Replays that keep machines

* `executeAll_eq_error_iff` : a run of instructions fails with the first error that one of them gives;
* `Faithful` : every machine that a replay has kept is the one at the end of its path;
  `Faithful.endOf`, `Faithful.machineAt`, `Faithful.run` : no request spoils that, whether it succeeds or fails;
* `headsUpTo`, `arrive` : the instructions that lead to a point of a path, and the machine that stops there;
* `machineAt_run` : whatever was asked for before, a replay gives the machine that these instructions lead to from
  the seed.
-/

namespace PathReplay

variable {c : FlowChart} {seed m m' : Machine} {i : Nat} {above t : Trail} {stop : Option Address} {e : Error}

theorem executeAll_eq_error_iff {heads : List Address} : executeAll heads seed = .error e ↔
    ∃ before a after m m', heads = before ++ a :: after ∧ executeAll before seed = .ok m ∧
      Machine.execute a m = .error e m' := by
  constructor
  · intro h
    induction heads generalizing seed with
    | nil => cases h
    | cons a heads ih =>
      rw [executeAll] at h
      cases hrun : Machine.execute a seed with
      | error e' m' =>
        rw [hrun] at h
        obtain rfl := Except.error.inj h
        exact ⟨[], a, heads, seed, m', rfl, rfl, hrun⟩
      | ok u m =>
        rw [hrun] at h
        obtain ⟨before, b, after, m₁, m₂, rfl, hbefore, hb⟩ := ih h
        refine ⟨a :: before, b, after, m₁, m₂, rfl, ?_, hb⟩
        rw [executeAll, hrun]
        exact hbefore
  · rintro ⟨before, a, after, m, m', rfl, hbefore, ha⟩
    rw [executeAll_append, hbefore]
    show executeAll (a :: after) m = .error e
    rw [executeAll, ha]

namespace FlowChart

theorem headsOf_cons (c : FlowChart) (i : Nat) (above : Trail) :
    c.headsOf (i :: above) = c.headsOf above ++ (c.block i).heads := by
  unfold headsOf
  rw [List.reverse_cons, List.flatMap_append, List.flatMap_singleton]

theorem straightLine_cons (c : FlowChart) (seed : Machine) (i : Nat) (above : Trail) :
    c.straightLine seed (i :: above) = (c.straightLine seed above).bind (executeAll (c.block i).heads) := by
  rw [straightLine, headsOf_cons, executeAll_append, straightLine]

/-- The instructions of a path up to an address in its last block, or all of them. -/
def headsUpTo (c : FlowChart) (t : Trail) : Option Address → List Address
  | some a => c.headsBefore t a
  | none => c.headsOf t

/-- The machine that has come to its last block and stops at an address there, or at the block's end. -/
def arrive (c : FlowChart) (i : Nat) : Option Address → Machine → Machine
  | some a => Replay.stopAt a
  | none => fun m => m.withIp (c.block i).stop

end FlowChart

namespace Replay

variable {r : Replay}

/-- Every machine that is kept is the one at the end of its path. -/
def Faithful (c : FlowChart) (r : Replay) : Prop :=
  ∀ t m, r.ends[t]? = some m → c.straightLine r.seed t = .ok m

theorem faithful_start (c : FlowChart) (seed : Machine) : Faithful c (start seed) := by
  intro t m h
  rw [start, Std.ExtTreeMap.getElem?_empty] at h
  cases h

theorem Faithful.insert (h : Faithful c r) (ht : c.straightLine r.seed t = .ok m) :
    Faithful c { r with ends := r.ends.insert t m } := by
  intro u m' hu
  rw [Std.ExtTreeMap.getElem?_insert] at hu
  split at hu
  · rename_i heq
    obtain rfl := Std.LawfulEqCmp.eq_of_compare heq
    obtain rfl := Option.some.inj hu
    exact ht
  · exact h u m' hu

/-- The end of a path, whether it is kept or replayed on what is kept of the path above it. -/
theorem Faithful.endOf (h : Faithful c r) (t : Trail) :
    (endOf c t r).1 = c.straightLine r.seed t ∧ Faithful c (endOf c t r).2 ∧ (endOf c t r).2.seed = r.seed := by
  induction t with
  | nil => exact ⟨rfl, h, rfl⟩
  | cons i above ih =>
    rw [FlowChart.straightLine_cons]
    unfold Replay.endOf
    split
    · rename_i m hkept
      rw [← FlowChart.straightLine_cons]
      exact ⟨(h (i :: above) m hkept).symm, h, rfl⟩
    · -- The path above is replayed first. Its replay may keep machines even if this one fails.
      obtain ⟨hresult, hfaithful, hseed⟩ := ih
      rw [← hresult]
      rcases hend : Replay.endOf c above r with ⟨result, r'⟩
      rw [hend] at hresult hfaithful hseed
      cases result with
      | error e => exact ⟨rfl, hfaithful, hseed⟩
      | ok m =>
        have hstraight : c.straightLine r'.seed (i :: above) = executeAll (c.block i).heads m := by
          rw [FlowChart.straightLine_cons, hseed, ← hresult]
          rfl
        dsimp only
        show _ = executeAll (c.block i).heads m ∧ _
        cases hlast : executeAll (c.block i).heads m with
        | error e => exact ⟨rfl, hfaithful, hseed⟩
        | ok m' => exact ⟨rfl, hfaithful.insert (hstraight.trans hlast), hseed⟩

/-! ## Requests -/

theorem Faithful.machineAt (h : Faithful c r) (i : Nat) (above : Trail) (stop : Option Address) :
    (machineAt c (i :: above) stop r).1 =
      (executeAll (c.headsUpTo (i :: above) stop) r.seed).map (c.arrive i stop) ∧
    Faithful c (machineAt c (i :: above) stop r).2 ∧ (machineAt c (i :: above) stop r).2.seed = r.seed := by
  cases stop with
  | none =>
    obtain ⟨hresult, hkept⟩ := h.endOf (i :: above)
    refine ⟨?_, hkept⟩
    show (Replay.endOf c (i :: above) r).1.map _ = _
    rw [hresult]
    rfl
  | some a =>
    obtain ⟨hresult, hkept⟩ := h.endOf above
    refine ⟨?_, hkept⟩
    show (Replay.endOf c above r).1.bind _ = _
    rw [hresult, FlowChart.headsUpTo, FlowChart.headsBefore, executeAll_append, FlowChart.straightLine]
    cases executeAll (c.headsOf above) r.seed <;> rfl

/-- What is asked of a replay: a path, and where on it to stop. -/
abbrev Query := Trail × Option Address

/-- A replay after some requests, whatever their answers were. -/
def run (c : FlowChart) (queries : List Query) (r : Replay) : Replay :=
  queries.foldl (fun r q => (Replay.machineAt c q.1 q.2 r).2) r

theorem Faithful.run (h : Faithful c r) (queries : List Query) :
    Faithful c (run c queries r) ∧ (run c queries r).seed = r.seed := by
  induction queries generalizing r with
  | nil => exact ⟨h, rfl⟩
  | cons q queries ih =>
    have hstep : Faithful c (Replay.machineAt c q.1 q.2 r).2 ∧ (Replay.machineAt c q.1 q.2 r).2.seed = r.seed := by
      obtain ⟨t, stop⟩ := q
      cases t with
      | nil => exact ⟨h, rfl⟩
      | cons i above => exact (h.machineAt i above stop).2
    obtain ⟨hfaithful, hseed⟩ := ih hstep.1
    exact ⟨hfaithful, hseed.trans hstep.2⟩

/-- The registers, the memory and the calls that were stepped over. -/
def state (m : Machine) : Registers × Memory × Std.ExtTreeMap Address Call compare :=
  (m.registers, m.memory, m.calls)

theorem state_stopAt (a : Address) (m : Machine) : state (stopAt a m) = state (m.withIp a) := by
  obtain ⟨known, frame, h⟩ := (m.withIp a).trackHere_eq
  rw [stopAt, h]
  rfl

/-- When all instructions of a path's last block lie below its end, those up to its end are all of them. -/
theorem headsUpTo_stop (h : ∀ a ∈ (c.block i).heads, a < (c.block i).stop) :
    c.headsUpTo (i :: above) (some (c.block i).stop) = c.headsUpTo (i :: above) none := by
  show c.headsOf above ++ _ = c.headsOf (i :: above)
  rw [FlowChart.headsOf_cons, List.takeWhile_eq_self_iff.2 fun a ha => decide_eq_true (h a ha)]

/-- Whatever a replay was asked for before, it gives for a point of a path the machine that the instructions on the
way there lead to from the seed, and fails with the first error that one of them gives. When all instructions of the
last block lie below its end, stopping there and not stopping leave the same registers, memory and calls. -/
theorem machineAt_run (c : FlowChart) (seed : Machine) (queries : List Query) (i : Nat) (above : Trail) :
    let answer := fun queries stop => (machineAt c (i :: above) stop (run c queries (start seed))).1
    (∀ stop, answer queries stop =
      (executeAll (c.headsUpTo (i :: above) stop) seed).map (c.arrive i stop)) ∧
    (∀ stop e, answer queries stop = .error e ↔
      ∃ before a after m m', c.headsUpTo (i :: above) stop = before ++ a :: after ∧
        executeAll before seed = .ok m ∧ Machine.execute a m = .error e m') ∧
    ((∀ a ∈ (c.block i).heads, a < (c.block i).stop) → ∀ others,
      (answer queries none).map state = (answer others (some (c.block i).stop)).map state) := by
  intro answer
  have hanswer : ∀ queries stop, answer queries stop =
      (executeAll (c.headsUpTo (i :: above) stop) seed).map (c.arrive i stop) := by
    intro queries stop
    obtain ⟨hfaithful, hseed⟩ := (faithful_start c seed).run queries
    have h := (hfaithful.machineAt i above stop).1
    rw [hseed] at h
    exact h
  refine ⟨hanswer queries, fun stop e => ?_, fun hheads others => ?_⟩
  · rw [hanswer, ← executeAll_eq_error_iff]
    cases executeAll (c.headsUpTo (i :: above) stop) seed with
    | ok m => exact iff_of_false nofun nofun
    | error e' => exact ⟨fun h => congrArg _ (Except.error.inj h), fun h => congrArg _ (Except.error.inj h)⟩
  · rw [hanswer, hanswer, headsUpTo_stop hheads]
    cases executeAll (c.headsUpTo (i :: above) none) seed with
    | error e => rfl
    | ok m => exact congrArg Except.ok (state_stopAt _ m).symm

/-- A replay of an instruction that does not exist fails again, and in the same way wherever it is to stop. -/
theorem machineAt_invalid_again :
    let c := FlowChart.ofBlocks 0x1000 [⟨0x1000, 0x1010, [0x1000, 0x1004], [], []⟩]
    let seed := Machine.fresh (.empty .x86) {}
    let r := run c [([0], none), ([0], some 0x1002)] (start seed)
    (machineAt c [0] none r).1 = .error (.invalidInstruction 0x1000) ∧
      (machineAt c [0] none r).1.map state = (machineAt c [0] (some 0x1010) (start seed)).1.map state := by
  intro c seed r
  obtain ⟨-, herror, hstate⟩ := machineAt_run c seed [([0], none), ([0], some 0x1002)] 0 []
  refine ⟨(herror none _).2 ⟨[], 0x1000, [0x1004], seed, seed, rfl, rfl, ?_⟩, ?_⟩
  · rfl
  · refine hstate ?_ []
    exact List.forall_mem_cons.2 ⟨by decide, List.forall_mem_singleton.2 (by decide)⟩

end Replay
end PathReplay
