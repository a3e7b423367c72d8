import PathReplay.Graph.Trace
import PathReplay.Proofs.Graph.CachedReplay
import PathReplay.Proofs.Graph.PathTree
import PathReplay.Proofs.Instruction.Faults

/-!
# When no path is found

* `isFault_of_machineAt` : a replay fails with nothing but a fault of an instruction;
* `firstMachine_eq_pathNotFound_iff`, `machines_eq_pathNotFound_iff` : so a tracer says that it finds no path exactly
  when there is none.
-/

namespace PathReplay

variable {c : FlowChart} {seed : Machine} {r : Replay} {trail : Trail} {stop : Option Address} {e : Error}

theorem FlowChart.firstTrail?_eq (c : FlowChart) (a : Address) : c.firstTrail? a = (c.trails a).head? := by
  rw [firstTrail?, firstTrails_eq_take, List.head?_take, if_neg Nat.one_ne_zero]

theorem Replay.Faithful.isFault_of_machineAt (h : Faithful c r) (hrun : (Replay.machineAt c trail stop r).1 = .error e) :
    e.isFault = true := by
  cases trail with
  | nil => cases hrun
  | cons i above =>
    rw [(h.machineAt i above stop).1] at hrun
    cases hall : executeAll (c.headsUpTo (i :: above) stop) r.seed with
    | ok m =>
      rw [hall] at hrun
      cases hrun
    | error e' =>
      rw [hall] at hrun
      obtain rfl := Except.error.inj hrun
      obtain ⟨_, a, _, m, m', -, -, ha⟩ := executeAll_eq_error_iff.1 hall
      exact Machine.isFault_of_execute ha

namespace Tracer

theorem firstMachine_eq_pathNotFound_iff (t : Tracer) (a : Address) :
    t.firstMachine a = .error (.pathNotFound a) ↔ t.chart.trails a = [] := by
  rw [firstMachine, FlowChart.firstTrail?_eq]
  cases t.chart.trails a with
  | nil => exact iff_of_true rfl rfl
  | cons trail rest =>
    refine iff_of_false (fun h => ?_) (List.cons_ne_nil trail rest)
    exact absurd ((Replay.faithful_start t.chart t.fresh).isFault_of_machineAt h) Bool.false_ne_true

theorem machines_eq_pathNotFound_iff (t : Tracer) (depth : Nat) (a : Address) :
    machines depth t a = .error (.pathNotFound a) ↔ t.chart.trails a = [] := by
  unfold machines
  rw [FlowChart.firstTrail?_eq]
  cases t.chart.trails a with
  | nil => exact iff_of_true rfl rfl
  | cons trail rest => exact iff_of_false nofun (List.cons_ne_nil trail rest)

end Tracer
end PathReplay
