import PathReplay.Graph.Path
import PathReplay.Instruction.Operation

/-!
# Replaying paths

`straightLine` executes the instructions of a path's blocks in order. A `Replay` does the same for many paths
from one seed and keeps the machine at the end of every block it has replayed, so that paths with a common
beginning execute it once.
-/

namespace PathReplay

def executeAll : List Address → Machine → Except Error Machine
  | [], m => .ok m
  | a :: rest, m =>
    match Machine.execute a m with
    | .ok _ m => executeAll rest m
    | .error e _ => .error e

theorem executeAll_append (xs ys : List Address) (m : Machine) :
    executeAll (xs ++ ys) m = (executeAll xs m).bind (executeAll ys) := by
  induction xs generalizing m with
  | nil => rfl
  | cons x xs ih =>
    simp only [List.cons_append, executeAll]
    cases Machine.execute x m with
    | ok _ m' => exact ih m'
    | error e m' => rfl

namespace FlowChart

def headsOf (c : FlowChart) (t : Trail) : List Address := t.reverse.flatMap fun i => (c.block i).heads

/-- The machine at the end of a path, from a seed. -/
def straightLine (c : FlowChart) (seed : Machine) (t : Trail) : Except Error Machine :=
  executeAll (c.headsOf t) seed

/-- The instructions of a path up to, but not including, an address in its last block. -/
def headsBefore (c : FlowChart) (t : Trail) (a : Address) : List Address :=
  match t with
  | [] => []
  | i :: above => c.headsOf above ++ (c.block i).heads.takeWhile (· < a)

end FlowChart

/-- Paths replayed from one seed. -/
structure Replay where
  seed : Machine
  /-- The machine at the end of each path that was replayed. -/
  ends : Std.ExtTreeMap Trail Machine compare

namespace Replay

def start (seed : Machine) : Replay := ⟨seed, ∅⟩

/-- The machine at the end of a path, and what is known then. -/
def endOf (c : FlowChart) : Trail → Replay → Except Error Machine × Replay
  | [], r => (.ok r.seed, r)
  | i :: above, r =>
    match r.ends[i :: above]? with
    | some m => (.ok m, r)
    | none =>
      match endOf c above r with
      | (.error e, r) => (.error e, r)
      | (.ok m, r) =>
        match executeAll (c.block i).heads m with
        | .ok m => (.ok m, { r with ends := r.ends.insert (i :: above) m })
        | .error e => (.error e, r)

/-- The machine with control at an address and the variables of the instruction there known. -/
def stopAt (a : Address) (m : Machine) : Machine := (m.withIp a).trackHere

/-- The machine at a point of a path. With an address, the instructions of the last block that come before it
in the listing and lie below it are executed; without one, the whole path is. -/
def machineAt (c : FlowChart) (t : Trail) (a : Option Address) (r : Replay) :
    Except Error Machine × Replay :=
  match t, a with
  | [], _ => (.ok r.seed, r)
  | i :: above, none =>
    let (result, r) := endOf c (i :: above) r
    (result.map fun m => m.withIp (c.block i).stop, r)
  | i :: above, some a =>
    let (result, r) := endOf c above r
    (result.bind fun m =>
      (executeAll ((c.block i).heads.takeWhile (· < a)) m).map (stopAt a), r)

/-- The machines at an address along each of some paths, one after the other. -/
def machinesAt (c : FlowChart) (a : Option Address) : List Trail → Replay → List (Except Error Machine)
  | [], _ => []
  | t :: rest, r =>
    let (m, r) := machineAt c t a r
    m :: machinesAt c a rest r

end Replay
end PathReplay
