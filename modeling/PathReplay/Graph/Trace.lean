import PathReplay.Graph.Replay

/-!
# Tracing a function

The machines that reach an address in a function: along the first path (`firstMachine`), or along every path
and through callers up to a given depth (`machines`). A function entered from a caller starts where the
caller's machine stands at the call site, as a call would leave it.
-/

namespace PathReplay

/-- A function of a listing, to be traced under some settings. -/
structure Tracer where
  listing : Listing
  config : Config
  chart : FlowChart

namespace Tracer

def ofAddress (l : Listing) (config : Config) (a : Address) : Except Error Tracer :=
  (FlowChart.ofListing l a).map fun chart => ⟨l, config, chart⟩

/-- The machine that a function without a caller starts from. -/
def fresh (t : Tracer) : Machine := .fresh t.listing t.config

def firstMachine (t : Tracer) (a : Address) : Except Error Machine :=
  match t.chart.firstTrail? a with
  | some trail => (Replay.machineAt t.chart trail (some a) (.start t.fresh)).1
  | none => .error (.pathNotFound a)

/-- The machines at an address along every path to it from a seed. Paths that cannot be replayed are left
out. -/
def machinesFrom (t : Tracer) (a : Address) (seed : Machine) : List Machine :=
  (Replay.machinesAt t.chart (some a) (t.chart.trails a) (.start seed)).filterMap Except.toOption

def returnAddress (l : Listing) (site : Address) : Address :=
  match l.decode? site with
  | some i => i.next
  | none => site

/-- The machine inside a function that was called at a site. -/
def enterFunction (l : Listing) (site entry : Address) (m : Machine) : Machine :=
  (m.push (returnAddress l site)).withIp entry

/-- The machines at an address, through callers up to `depth` levels up. Call sites that no path reaches, or
that lie in no function, are left out; with no other left, the function starts fresh. -/
def machines : Nat → Tracer → Address → Except Error (List Machine)
  | depth, t, a =>
    if (t.chart.firstTrail? a).isNone then .error (.pathNotFound a)
    else
      let seeds := match depth with
        | 0 => []
        | depth + 1 => (t.listing.callsTo t.chart.entry).flatMap fun site =>
          match ofAddress t.listing t.config site with
          | .error _ => []
          | .ok caller =>
            match machines depth caller site with
            | .error _ => []
            | .ok ms => ms.map (enterFunction t.listing site t.chart.entry)
      .ok ((if seeds.isEmpty then [t.fresh] else seeds).flatMap (t.machinesFrom a))

end Tracer
end PathReplay
