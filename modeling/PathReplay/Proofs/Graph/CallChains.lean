import PathReplay.Proofs.Graph.Tracing
import PathReplay.Proofs.Graph.SimplePaths
import PathReplay.Proofs.Machine.Entering

/-!
# Tracing through callers

* `CallChain` : a way to an address through callers, by the positions of its call sites and paths;
* `CallChain.replay?` : the machine that it leads to, instruction by instruction from a fresh one;
* `Tracer.Admits` : the chains of a depth. They are shorter only where no call site yields a machine;
* `CallChain.Before` : the order of chains, lexicographic from the innermost call site to the innermost path;
* `Tracer.runs` : a trace that says of every machine along which chain it was reached (`machines_eq`). It has the
  machines of exactly the chains that are admitted (`mem_runs`), in order (`pairwise_runs`);
* `machines_exact` : so a trace through callers is exact.
-/

namespace PathReplay

/-- A way to an address: one of the paths to it, in a function that starts fresh or is called from a call site to which
another way leads. Call sites and paths are known by their positions. -/
inductive CallChain where
  | alone (path : Nat)
  | called (site : Nat) (outer : CallChain) (path : Nat)

namespace Tracer

/-- The machine at an address along the path at a position, from a seed. -/
def replayPath? (t : Tracer) (a : Address) (path : Nat) (seed : Machine) : Option Machine :=
  (t.chart.trails a)[path]?.bind fun trail =>
    ((executeAll (t.chart.headsBefore trail a) seed).map (Replay.stopAt a)).toOption

/-- The call site of the function at a position, and the tracer of the function that it lies in. -/
def caller? (t : Tracer) (n : Nat) : Option (Address × Tracer) :=
  (t.listing.callsTo t.chart.entry)[n]?.bind fun site =>
    (ofAddress t.listing t.config site).toOption.map fun caller => (site, caller)

end Tracer

open Tracer

namespace CallChain

/-- The machine to which a chain leads, if all its instructions can be executed. -/
def replay? : CallChain → Tracer → Address → Option Machine
  | alone path, t, a => t.replayPath? a path t.fresh
  | called n outer path, t, a =>
    (t.caller? n).bind fun (site, caller) =>
      (outer.replay? caller site).bind fun m =>
        t.replayPath? a path ((m.push (returnAddress t.listing site)).withIp t.chart.entry)

/-- Lexicographic order: the innermost call site first, then the way to it, then the path from there. -/
inductive Before : CallChain → CallChain → Prop
  | alone {path path' : Nat} : path < path' → Before (alone path) (alone path')
  | site {n n' : Nat} {outer outer' : CallChain} {path path' : Nat} :
      n < n' → Before (called n outer path) (called n' outer' path')
  | outer {n : Nat} {outer outer' : CallChain} {path path' : Nat} :
      Before outer outer' → Before (called n outer path) (called n outer' path')
  | path {n : Nat} {outer : CallChain} {path path' : Nat} :
      path < path' → Before (called n outer path) (called n outer path')

theorem Before.irrefl (chain : CallChain) : ¬chain.Before chain := by
  induction chain with
  | alone path =>
    rintro ⟨h⟩
    exact Nat.lt_irrefl path h
  | called n outer path ih =>
    rintro (_ | h | h | h)
    · exact Nat.lt_irrefl n h
    · exact ih h
    · exact Nat.lt_irrefl path h

end CallChain

namespace Tracer

/-- The chains of a depth. One with fewer call sites begins in a function none of whose call sites yields a machine at
the depth that is left. -/
def Admits : Nat → Tracer → CallChain → Prop
  | 0, _, .alone _ => True
  | 0, _, .called .. => False
  | depth + 1, t, .alone _ => ∀ n site caller, t.caller? n = some (site, caller) →
      ∀ outer, Admits depth caller outer → outer.replay? caller site = none
  | depth + 1, t, .called n outer _ => ∃ site caller, t.caller? n = some (site, caller) ∧ Admits depth caller outer

/-! ## Machines with their chains -/

/-- The machines along every path to an address from a seed, with their chains. -/
def runsFrom (t : Tracer) (a : Address) (chain : Nat → CallChain) (seed : Machine) : List (CallChain × Machine) :=
  (t.chart.trails a).zipIdx.filterMap fun (_, path) => (t.replayPath? a path seed).map fun m => (chain path, m)

/-- The machines with which the function is entered from one call site, with their chains up to the path. -/
def seedsAt (t : Tracer) (runs : Tracer → Address → List (CallChain × Machine)) (site : Address) (n : Nat) :
    List ((Nat → CallChain) × Machine) :=
  match ofAddress t.listing t.config site with
  | .error _ => []
  | .ok caller => (runs caller site).map fun (outer, m) =>
    (.called n outer, enterFunction t.listing site t.chart.entry m)

/-- The machines with which the function is entered from all of its call sites. -/
def seedsFrom (t : Tracer) (runs : Tracer → Address → List (CallChain × Machine)) :
    List ((Nat → CallChain) × Machine) :=
  (t.listing.callsTo t.chart.entry).zipIdx.flatMap fun (site, n) => t.seedsAt runs site n

/-- The machines with which the function is entered from one call site, through callers up to `depth` levels up. -/
def enteredFrom (t : Tracer) (depth : Nat) (site : Address) : List Machine :=
  match ofAddress t.listing t.config site with
  | .error _ => []
  | .ok caller =>
    match machines depth caller site with
    | .error _ => []
    | .ok ms => ms.map (enterFunction t.listing site t.chart.entry)

/-- The machines at an address, through callers up to `depth` levels up, with their chains. -/
def runs : Nat → Tracer → Address → List (CallChain × Machine)
  | depth, t, a =>
    let seeds := match depth with
      | 0 => []
      | depth + 1 => t.seedsFrom (runs depth)
    (if seeds.isEmpty then [(CallChain.alone, t.fresh)] else seeds).flatMap fun (chain, seed) => t.runsFrom a chain seed

variable {t : Tracer} {a : Address} {depth : Nat} {seed m : Machine} {chain : CallChain}

theorem machinesAt_eq {c : FlowChart} {trails : List Trail} (h : ∀ trail ∈ trails, trail ≠ []) {r : Replay}
    (hr : Replay.Faithful c r) : Replay.machinesAt c (some a) trails r =
      trails.map fun trail => (executeAll (c.headsBefore trail a) r.seed).map (Replay.stopAt a) := by
  induction trails generalizing r with
  | nil => rfl
  | cons trail trails ih =>
    obtain ⟨i, above, rfl⟩ := List.exists_cons_of_ne_nil (h trail List.mem_cons_self)
    obtain ⟨hanswer, hfaithful, hseed⟩ := hr.machineAt i above (some a)
    have hrest := ih (fun trail htrail => h trail (List.mem_cons_of_mem _ htrail)) hfaithful
    rw [hseed] at hrest
    exact congrArg₂ List.cons hanswer hrest

theorem ne_nil_of_mem_trails {c : FlowChart} {trail : Trail} (h : trail ∈ c.trails a) : trail ≠ [] := by
  rintro rfl
  obtain ⟨goal, -, hsimple, -⟩ := FlowChart.mem_trails_iff.1 h
  cases hsimple.last

theorem map_snd_runsFrom (t : Tracer) (a : Address) (chain : Nat → CallChain) (seed : Machine) :
    (t.runsFrom a chain seed).map Prod.snd = t.machinesFrom a seed := by
  let follow := fun trail => ((executeAll (t.chart.headsBefore trail a) seed).map (Replay.stopAt a)).toOption
  have hpath : ∀ p ∈ (t.chart.trails a).zipIdx, t.replayPath? a p.2 seed = follow p.1 := by
    rintro ⟨trail, n⟩ hp
    rw [List.mem_zipIdx_iff_getElem?] at hp
    rw [replayPath?, hp]
    rfl
  calc (t.runsFrom a chain seed).map Prod.snd
      = (t.chart.trails a).zipIdx.filterMap fun p => t.replayPath? a p.2 seed := by
        rw [runsFrom, List.map_filterMap]
        simp only [Option.map_map, Function.comp_def, Option.map_id']
    _ = (t.chart.trails a).zipIdx.filterMap (follow ∘ Prod.fst) := List.filterMap_congr hpath
    _ = (t.chart.trails a).filterMap follow := by rw [← List.filterMap_map, List.zipIdx_map_fst]
    _ = t.machinesFrom a seed := by
        rw [machinesFrom, machinesAt_eq (fun _ => ne_nil_of_mem_trails) (Replay.faithful_start t.chart seed),
          List.filterMap_map]
        rfl

theorem runs_eq_nil (h : t.chart.trails a = []) : runs depth t a = [] := by
  unfold runs runsFrom
  rw [h]
  simp

theorem map_snd_flatMap_runsFrom (seeds : List ((Nat → CallChain) × Machine)) :
    (seeds.flatMap fun s => t.runsFrom a s.1 s.2).map Prod.snd = (seeds.map Prod.snd).flatMap (t.machinesFrom a) := by
  rw [List.map_flatMap, List.flatMap_map]
  simp only [map_snd_runsFrom]

theorem machines_succ (depth : Nat) (t : Tracer) (a : Address) :
    machines (depth + 1) t a =
      if (t.chart.firstTrail? a).isNone then .error (.pathNotFound a)
      else
        let seeds := (t.listing.callsTo t.chart.entry).flatMap (t.enteredFrom depth)
        .ok ((if seeds.isEmpty then [t.fresh] else seeds).flatMap (t.machinesFrom a)) := rfl

section
variable (h : ∀ t a, machines depth t a =
  if t.chart.trails a = [] then .error (.pathNotFound a) else .ok ((runs depth t a).map Prod.snd))
include h

theorem map_snd_seedsAt (site : Address) (n : Nat) :
    (t.seedsAt (runs depth) site n).map Prod.snd = t.enteredFrom depth site := by
  unfold seedsAt enteredFrom
  cases ofAddress t.listing t.config site with
  | error e => rfl
  | ok caller =>
    dsimp only
    rw [h]
    by_cases hnone : caller.chart.trails site = []
    · rw [if_pos hnone, runs_eq_nil hnone]
      rfl
    · rw [if_neg hnone]
      dsimp only
      rw [List.map_map, List.map_map]
      rfl

theorem map_snd_seedsFrom :
    (t.seedsFrom (runs depth)).map Prod.snd = (t.listing.callsTo t.chart.entry).flatMap (t.enteredFrom depth) := by
  rw [seedsFrom, List.map_flatMap]
  simp only [map_snd_seedsAt h]
  rw [← List.flatMap_map Prod.fst (t.enteredFrom depth), List.zipIdx_map_fst]

end

/-- A trace gives the machines of its runs, as long as there is a path to the address. -/
theorem machines_eq (depth : Nat) (t : Tracer) (a : Address) :
    machines depth t a =
      if t.chart.trails a = [] then .error (.pathNotFound a) else .ok ((runs depth t a).map Prod.snd) := by
  induction depth generalizing t a with
  | zero =>
    unfold machines runs
    rw [FlowChart.firstTrail?_eq, map_snd_flatMap_runsFrom]
    cases t.chart.trails a <;> rfl
  | succ depth ih =>
    rw [machines_succ, FlowChart.firstTrail?_eq, ← map_snd_seedsFrom ih, runs, map_snd_flatMap_runsFrom]
    dsimp only
    rw [List.isEmpty_map]
    cases t.chart.trails a with
    | nil => rfl
    | cons trail rest =>
      rw [List.head?_cons]
      cases (t.seedsFrom (runs depth)).isEmpty <;> rfl

theorem mem_runsFrom {label : Nat → CallChain} : (chain, m) ∈ t.runsFrom a label seed ↔
    ∃ path, chain = label path ∧ t.replayPath? a path seed = some m := by
  unfold runsFrom
  rw [List.mem_filterMap]
  constructor
  · rintro ⟨⟨trail, path⟩, -, hrun⟩
    obtain ⟨m, hm, heq⟩ := Option.map_eq_some_iff.1 hrun
    cases heq
    exact ⟨path, rfl, hm⟩
  · rintro ⟨path, rfl, hm⟩
    obtain ⟨trail, htrail, -⟩ := Option.bind_eq_some_iff.1 hm
    exact ⟨(trail, path), List.mem_zipIdx_iff_getElem?.2 htrail, Option.map_eq_some_iff.2 ⟨m, hm, rfl⟩⟩

theorem caller?_eq_some_iff {n : Nat} {site : Address} {caller : Tracer} : t.caller? n = some (site, caller) ↔
    (t.listing.callsTo t.chart.entry)[n]? = some site ∧ ofAddress t.listing t.config site = .ok caller := by
  unfold caller?
  rw [Option.bind_eq_some_iff]
  constructor
  · rintro ⟨site', hsite, hcaller⟩
    cases hof : ofAddress t.listing t.config site' with
    | error e =>
      rw [hof] at hcaller
      cases hcaller
    | ok caller' =>
      rw [hof] at hcaller
      cases hcaller
      exact ⟨hsite, hof⟩
  · rintro ⟨hsite, hof⟩
    exact ⟨site, hsite, by rw [hof]; rfl⟩

theorem mem_seedsAt {runs : Tracer → Address → List (CallChain × Machine)} {site : Address} {n : Nat}
    {label : Nat → CallChain} : (label, seed) ∈ t.seedsAt runs site n ↔
      ∃ caller outer m, ofAddress t.listing t.config site = .ok caller ∧ (outer, m) ∈ runs caller site ∧
        label = .called n outer ∧ seed = enterFunction t.listing site t.chart.entry m := by
  unfold seedsAt
  cases hof : ofAddress t.listing t.config site with
  | error e =>
    refine iff_of_false List.not_mem_nil ?_
    rintro ⟨caller, outer, m, hok, -⟩
    cases hok
  | ok caller =>
    dsimp only
    rw [List.mem_map]
    constructor
    · rintro ⟨⟨outer, m⟩, hrun, heq⟩
      cases heq
      exact ⟨caller, outer, m, rfl, hrun, rfl, rfl⟩
    · rintro ⟨caller, outer, m, heq, hrun, rfl, rfl⟩
      cases heq
      exact ⟨(outer, m), hrun, rfl⟩

theorem mem_seedsFrom {runs : Tracer → Address → List (CallChain × Machine)} {label : Nat → CallChain} :
    (label, seed) ∈ t.seedsFrom runs ↔ ∃ n site caller outer m, t.caller? n = some (site, caller) ∧
      (outer, m) ∈ runs caller site ∧ label = .called n outer ∧
      seed = enterFunction t.listing site t.chart.entry m := by
  unfold seedsFrom
  rw [List.mem_flatMap]
  constructor
  · rintro ⟨⟨site, n⟩, hsite, hseed⟩
    obtain ⟨caller, outer, m, hof, hrun⟩ := mem_seedsAt.1 hseed
    exact ⟨n, site, caller, outer, m, caller?_eq_some_iff.2 ⟨List.mem_zipIdx_iff_getElem?.1 hsite, hof⟩, hrun⟩
  · rintro ⟨n, site, caller, outer, m, hcaller, hrun⟩
    obtain ⟨hsite, hof⟩ := caller?_eq_some_iff.1 hcaller
    exact ⟨(site, n), List.mem_zipIdx_iff_getElem?.2 hsite, mem_seedsAt.2 ⟨caller, outer, m, hof, hrun⟩⟩

theorem replay?_called {n path : Nat} {outer : CallChain} : (CallChain.called n outer path).replay? t a = some m ↔
    ∃ site caller m₀, t.caller? n = some (site, caller) ∧ outer.replay? caller site = some m₀ ∧
      t.replayPath? a path (enterFunction t.listing site t.chart.entry m₀) = some m := by
  rw [CallChain.replay?, Option.bind_eq_some_iff]
  constructor
  · rintro ⟨⟨site, caller⟩, hcaller, hrun⟩
    obtain ⟨m₀, houter, hrun⟩ := Option.bind_eq_some_iff.1 hrun
    exact ⟨site, caller, m₀, hcaller, houter, hrun⟩
  · rintro ⟨site, caller, m₀, hcaller, houter, hrun⟩
    exact ⟨(site, caller), hcaller, Option.bind_eq_some_iff.2 ⟨m₀, houter, hrun⟩⟩

theorem runs_zero (t : Tracer) (a : Address) : runs 0 t a = t.runsFrom a .alone t.fresh := by
  rw [runs]
  exact List.flatMap_singleton _ _

theorem runs_succ_of_nil (h : t.seedsFrom (runs depth) = []) :
    runs (depth + 1) t a = t.runsFrom a .alone t.fresh := by
  rw [runs, h]
  exact List.flatMap_singleton _ _

theorem runs_succ_of_ne_nil (h : t.seedsFrom (runs depth) ≠ []) :
    runs (depth + 1) t a = (t.seedsFrom (runs depth)).flatMap fun s => t.runsFrom a s.1 s.2 := by
  rw [runs]
  dsimp only
  rw [if_neg (by rwa [List.isEmpty_iff])]

theorem mem_runsFrom_alone {path : Nat} :
    (.alone path, m) ∈ t.runsFrom a .alone seed ↔ t.replayPath? a path seed = some m := by
  rw [mem_runsFrom]
  constructor
  · rintro ⟨path', heq, hrun⟩
    cases heq
    exact hrun
  · exact fun hrun => ⟨path, rfl, hrun⟩

theorem called_notMem_runsFrom {n path : Nat} {outer : CallChain} :
    (.called n outer path, m) ∉ t.runsFrom a .alone seed := by
  rw [mem_runsFrom]
  rintro ⟨path', heq, -⟩
  cases heq

section
variable (h : ∀ {t a chain m}, (chain, m) ∈ runs depth t a ↔ Admits depth t chain ∧ chain.replay? t a = some m)
include h

/-- A function is entered from no call site exactly if chains may begin in it. -/
theorem seedsFrom_eq_nil_iff {path : Nat} : t.seedsFrom (runs depth) = [] ↔ Admits (depth + 1) t (.alone path) := by
  rw [List.eq_nil_iff_forall_not_mem]
  constructor
  · intro hnone n site caller hcaller outer hadmits
    rw [Option.eq_none_iff_forall_ne_some]
    intro m hm
    exact hnone _ (mem_seedsFrom.2 ⟨n, site, caller, outer, m, hcaller, h.2 ⟨hadmits, hm⟩, rfl, rfl⟩)
  · rintro hnone ⟨label, seed⟩ hseed
    obtain ⟨n, site, caller, outer, m, hcaller, hrun, -, -⟩ := mem_seedsFrom.1 hseed
    obtain ⟨hadmits, hm⟩ := h.1 hrun
    rw [hnone n site caller hcaller outer hadmits] at hm
    cases hm

/-- The machines to which a function entered from its call sites leads are the replays of chains through one. -/
theorem mem_flatMap_seedsFrom :
    (chain, m) ∈ (t.seedsFrom (runs depth)).flatMap (fun s => t.runsFrom a s.1 s.2) ↔
      (∃ n outer path, chain = .called n outer path) ∧ Admits (depth + 1) t chain ∧ chain.replay? t a = some m := by
  rw [List.mem_flatMap]
  constructor
  · rintro ⟨⟨label, seed⟩, hseed, hrun⟩
    obtain ⟨path, rfl, hpath⟩ := mem_runsFrom.1 hrun
    obtain ⟨n, site, caller, outer, m₀, hcaller, houter, rfl, rfl⟩ := mem_seedsFrom.1 hseed
    obtain ⟨hadmits, houter⟩ := h.1 houter
    refine ⟨⟨n, outer, path, rfl⟩, ⟨site, caller, hcaller, hadmits⟩, ?_⟩
    exact replay?_called.2 ⟨site, caller, m₀, hcaller, houter, hpath⟩
  · rintro ⟨⟨n, outer, path, rfl⟩, ⟨site, caller, hcaller, hadmits⟩, hrun⟩
    obtain ⟨site', caller', m₀, hcaller', houter, hpath⟩ := replay?_called.1 hrun
    cases hcaller.symm.trans hcaller'
    refine ⟨(.called n outer, enterFunction t.listing site t.chart.entry m₀), ?_, mem_runsFrom.2 ⟨path, rfl, hpath⟩⟩
    exact mem_seedsFrom.2 ⟨n, site, caller, outer, m₀, hcaller, h.2 ⟨hadmits, houter⟩, rfl, rfl⟩

end

/-- A traced machine is the replay of an admitted chain, and every replay of one is traced. -/
theorem mem_runs : (chain, m) ∈ runs depth t a ↔ Admits depth t chain ∧ chain.replay? t a = some m := by
  induction depth generalizing t a chain m with
  | zero =>
    rw [runs_zero]
    cases chain with
    | alone path => exact mem_runsFrom_alone.trans (and_iff_right trivial).symm
    | called n outer path => exact iff_of_false called_notMem_runsFrom fun h => h.1
  | succ depth ih =>
    -- Either the function is entered from some call site, and every chain goes through one, or it starts fresh.
    by_cases hnil : t.seedsFrom (runs depth) = []
    · rw [runs_succ_of_nil hnil]
      cases chain with
      | alone path => exact mem_runsFrom_alone.trans (and_iff_right ((seedsFrom_eq_nil_iff ih).1 hnil)).symm
      | called n outer path =>
        refine iff_of_false called_notMem_runsFrom fun hreplay => ?_
        have hmem := (mem_flatMap_seedsFrom ih).2 ⟨⟨n, outer, path, rfl⟩, hreplay⟩
        rw [hnil] at hmem
        cases hmem
    · rw [runs_succ_of_ne_nil hnil, mem_flatMap_seedsFrom ih]
      cases chain with
      | alone path =>
        refine iff_of_false ?_ fun hreplay => hnil ((seedsFrom_eq_nil_iff ih).2 hreplay.1)
        rintro ⟨⟨n, outer, path, heq⟩, -⟩
        cases heq
      | called n outer path => exact and_iff_right ⟨n, outer, path, rfl⟩

/-! ## Their order -/

theorem pairwise_zipIdx {α : Type} (l : List α) : l.zipIdx.Pairwise fun x y => x.2 < y.2 := by
  rw [← List.pairwise_map (f := Prod.snd) (R := (· < ·)), List.zipIdx_map_snd]
  exact List.pairwise_lt_range'

theorem pairwise_runsFrom {label : Nat → CallChain}
    (h : ∀ path path', path < path' → (label path).Before (label path')) :
    (t.runsFrom a label seed).Pairwise fun x y => x.1.Before y.1 := by
  unfold runsFrom
  rw [List.pairwise_filterMap]
  refine (pairwise_zipIdx _).imp fun {p q} hlt => ?_
  rintro x hx y hy
  obtain ⟨m, -, rfl⟩ := Option.map_eq_some_iff.1 hx
  obtain ⟨m', -, rfl⟩ := Option.map_eq_some_iff.1 hy
  exact h _ _ hlt

theorem pairwise_seedsFrom {runs : Tracer → Address → List (CallChain × Machine)}
    (h : ∀ caller site, (runs caller site).Pairwise fun x y => x.1.Before y.1) :
    (t.seedsFrom runs).Pairwise fun x y => ∀ path path', (x.1 path).Before (y.1 path') := by
  unfold seedsFrom
  rw [List.pairwise_flatMap]
  constructor
  · rintro ⟨site, n⟩ -
    dsimp only [seedsAt]
    cases ofAddress t.listing t.config site with
    | error e => exact List.Pairwise.nil
    | ok caller =>
      rw [List.pairwise_map]
      exact (h caller site).imp fun hbefore path path' => .outer hbefore
  · refine (pairwise_zipIdx _).imp fun {p q} hlt => ?_
    rintro ⟨label, seed⟩ hx ⟨label', seed'⟩ hy path path'
    obtain ⟨-, outer, -, -, -, rfl, -⟩ := mem_seedsAt.1 hx
    obtain ⟨-, outer', -, -, -, rfl, -⟩ := mem_seedsAt.1 hy
    exact .site hlt

/-- Traced machines come in the order of their chains. -/
theorem pairwise_runs (depth : Nat) (t : Tracer) (a : Address) :
    (runs depth t a).Pairwise fun x y => x.1.Before y.1 := by
  induction depth generalizing t a with
  | zero =>
    rw [runs_zero]
    exact pairwise_runsFrom fun _ _ => .alone
  | succ depth ih =>
    by_cases hnil : t.seedsFrom (runs depth) = []
    · rw [runs_succ_of_nil hnil]
      exact pairwise_runsFrom fun _ _ => .alone
    · rw [runs_succ_of_ne_nil hnil, List.pairwise_flatMap]
      constructor
      · rintro ⟨label, seed⟩ hseed
        obtain ⟨n, site, caller, outer, m₀, -, -, rfl, rfl⟩ := mem_seedsFrom.1 hseed
        exact pairwise_runsFrom fun _ _ => .path
      · refine (pairwise_seedsFrom ih).imp fun hbefore => ?_
        rintro ⟨x, m⟩ hx ⟨y, m'⟩ hy
        obtain ⟨path, rfl, -⟩ := mem_runsFrom.1 hx
        obtain ⟨path', rfl, -⟩ := mem_runsFrom.1 hy
        exact hbefore path path'

/-- Tracing through callers fails exactly if no path leads to the address. Otherwise it gives one machine for each
replay of a chain of the depth that succeeds, and no other, in the order of the chains. A function that is entered
returns to where the instruction at its call site says that the next one is, which is the call site plus that
instruction's length if it is listed at its own address. -/
theorem machines_exact (depth : Nat) (t : Tracer) (a : Address) :
    (machines depth t a = .error (.pathNotFound a) ↔ t.chart.trails a = []) ∧
    (t.chart.trails a ≠ [] → ∃ runs : List (CallChain × Machine), machines depth t a = .ok (runs.map Prod.snd) ∧
      (∀ chain m, (chain, m) ∈ runs ↔ Admits depth t chain ∧ chain.replay? t a = some m) ∧
      (runs.map Prod.fst).Nodup ∧ (runs.map Prod.fst).Pairwise CallChain.Before) ∧
    ∀ site i, t.listing.decode? site = some i → i.address = site → returnAddress t.listing site = site + i.length := by
  refine ⟨t.machines_eq_pathNotFound_iff depth a, fun h => ?_, fun site i hi hsite => ?_⟩
  · have hbefore : ((runs depth t a).map Prod.fst).Pairwise CallChain.Before := by
      rw [List.pairwise_map]
      exact pairwise_runs depth t a
    refine ⟨runs depth t a, by rw [machines_eq, if_neg h], fun chain m => mem_runs, ?_, hbefore⟩
    apply hbefore.imp
    rintro chain _ hchain rfl
    exact hchain.irrefl
  · rw [returnAddress, hi, ← hsite]
    rfl

/-! ## A call listed where it is and one listed elsewhere -/

/-- A function at `0x2000` and one at `0x1000` that calls it from `0x1004`, the call being listed at a key. -/
def calledOnce (key : Address) : Listing where
  arch := .x86
  segments := []
  instructions := (∅ : Std.ExtTreeMap Address Instruction compare).insert key
    (.of 0x1004 "call" 5 [.ofNear "f" 4 0x2000])
  functions := [0x1000, 0x2000].map fun a => ⟨a, a + 0x10, [], [⟨a, a + 0x10, [], [], []⟩], none⟩
  symbols := ∅

/-- The tracer of the function that calls or of the one that is called. -/
def calledOnceAt (key entry : Address) : Tracer :=
  ⟨calledOnce key, {}, .ofBlocks entry [⟨entry, entry + 0x10, [], [], []⟩]⟩

/-- Under either key the call is found, but only under its own one it returns to the address after it. -/
theorem calls_calledOnce :
    (calledOnce 0x1004).callsTo 0x2000 = [0x1004] ∧ returnAddress (calledOnce 0x1004) 0x1004 = 0x1009 ∧
      (calledOnce 0x3000).callsTo 0x2000 = [0x1004] ∧ returnAddress (calledOnce 0x3000) 0x1004 = 0x1004 := by
  decide +kernel

theorem replayPath?_of_trails {trail : Trail} (htrails : t.chart.trails a = [trail])
    (hheads : t.chart.headsBefore trail a = []) : t.replayPath? a 0 seed = some (Replay.stopAt a seed) := by
  rw [replayPath?, htrails, List.getElem?_cons_zero, Option.bind_some, hheads]
  rfl

theorem pop_stopAt (m : Machine) (a : Address) : (Replay.stopAt a m).pop.1 = m.pop.1 := by
  obtain ⟨known, frame, h⟩ := (m.withIp a).trackHere_eq
  rw [Replay.stopAt, h]
  exact m.pop_withIp a

/-- In both functions there is one path, to the call of the one and to the entry of the other. -/
theorem trails_calledOnceAt (key : Address) : (calledOnceAt key 0x1000).chart.trails 0x1004 = [[0]] ∧
    (calledOnceAt key 0x2000).chart.trails 0x2000 = [[0]] := by
  have hcalling : (FlowChart.ofBlocks 0x1000 [⟨0x1000, 0x1010, [], [], []⟩]).trails 0x1004 = [[0]] :=
    FlowChart.trails_of_entry rfl (by decide)
  have hcalled : (FlowChart.ofBlocks 0x2000 [⟨0x2000, 0x2010, [], [], []⟩]).trails 0x2000 = [[0]] :=
    FlowChart.trails_of_entry (by decide) rfl
  exact ⟨hcalling, hcalled⟩

/-- The chain through the call, and what it leaves on top of the stack. -/
theorem replay?_calledOnce {key : Address} (hcalls : (calledOnce key).callsTo 0x2000 = [0x1004]) :
    Admits 1 (calledOnceAt key 0x2000) (.called 0 (.alone 0) 0) ∧
      ∃ m, (CallChain.called 0 (.alone 0) 0).replay? (calledOnceAt key 0x2000) 0x2000 = some m ∧
        m.pop.1 = Word.ofBytes (Word.toBytes (returnAddress (calledOnce key) 0x1004) 4) := by
  let caller := calledOnceAt key 0x1000
  let before := Replay.stopAt 0x1004 caller.fresh
  obtain ⟨hcalling, hcalled⟩ := trails_calledOnceAt key
  have hcaller : (calledOnceAt key 0x2000).caller? 0 = some (0x1004, caller) :=
    caller?_eq_some_iff.2 ⟨congrArg (·[0]?) hcalls, rfl⟩
  have hsize : before.pointerSize = 4 := by
    obtain ⟨known, frame, h⟩ := (caller.fresh.withIp 0x1004).trackHere_eq
    rw [show before = _ from h]
    exact congrArg Arch.pointerSize (Machine.arch_freshRegisters .x86 ({} : Config).stackPointer)
  refine ⟨⟨0x1004, caller, hcaller, trivial⟩, _, replay?_called.2 ⟨0x1004, caller, before, hcaller,
    replayPath?_of_trails hcalling rfl, replayPath?_of_trails hcalled rfl⟩, ?_⟩
  rw [pop_stopAt, enterFunction, Machine.pop_withIp, Machine.pop_push, hsize]
  rfl

/-- The function that is called finds the address after the call on top of its stack. -/
theorem machines_exact_called : ∃ (runs : List (CallChain × Machine)) (m : Machine),
    machines 1 (calledOnceAt 0x1004 0x2000) 0x2000 = .ok (runs.map Prod.snd) ∧
      (.called 0 (.alone 0) 0, m) ∈ runs ∧ m.pop.1 = 0x1004 + 5 := by
  obtain ⟨hcalls, hreturn, -⟩ := calls_calledOnce
  obtain ⟨hadmits, m, hreplay, hpop⟩ := replay?_calledOnce hcalls
  obtain ⟨-, hruns, -⟩ := machines_exact 1 (calledOnceAt 0x1004 0x2000) 0x2000
  obtain ⟨runs, hmachines, hmem, -⟩ := hruns (by simp [trails_calledOnceAt])
  refine ⟨runs, m, hmachines, (hmem _ _).2 ⟨hadmits, hreplay⟩, ?_⟩
  rw [hpop, hreturn]
  decide

/-- Where the call is listed at another address than its own, the function finds the address of the call there. -/
theorem machines_listed_elsewhere :
    ofAddress (calledOnce 0x3000) {} 0x2000 = .ok (calledOnceAt 0x3000 0x2000) ∧
      (calledOnce 0x3000).callsTo 0x2000 = [0x1004] ∧
      ∃ ms m, machines 1 (calledOnceAt 0x3000 0x2000) 0x2000 = .ok ms ∧ m ∈ ms ∧ m.pop.1 ≠ 0x1004 + 5 := by
  obtain ⟨-, -, hcalls, hreturn⟩ := calls_calledOnce
  obtain ⟨hadmits, m, hreplay, hpop⟩ := replay?_calledOnce hcalls
  refine ⟨rfl, hcalls, (runs 1 (calledOnceAt 0x3000 0x2000) 0x2000).map Prod.snd, m, ?_, ?_, ?_⟩
  · rw [machines_eq, if_neg (by simp [trails_calledOnceAt])]
  · exact List.mem_map_of_mem (mem_runs.2 ⟨hadmits, hreplay⟩)
  · rw [hpop, hreturn]
    decide

end Tracer
end PathReplay
