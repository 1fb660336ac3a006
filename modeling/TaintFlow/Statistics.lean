import TaintFlow.CallGraph
import TaintFlow.Catalog.Store
import TaintFlow.Json.Basic
import TaintFlow.Metrics

/-!
# Statistics

The sizes of call graphs and catalogs, and the metrics of scans, as JSON documents.
-/

namespace TaintFlow

/-- The sizes of a call graph. -/
def CallGraph.Stats.toJson (s : CallGraph.Stats) : Json :=
  .object [("total_units", .nat s.units), ("total_methods", .nat s.methods),
    ("total_invocations", .nat s.calls), ("total_bindings", .nat s.bindings)]

/-- The numbers of points of a catalog. -/
def Catalog.statsJson (c : Catalog) : Json :=
  .object [("entry_points", .nat c.entryPoints.length), ("exit_points", .nat c.exitPoints.length),
    ("sanitization_points", .nat c.sanitizationPoints.length)]

/-- What a store has loaded; `bundled` names the place of the bundled catalogs. -/
def Catalog.Store.statsJson (bundled : String) (s : Catalog.Store) : Json :=
  let dir :=
    match s.origin with
    | .bundled => bundled
    | .directory dir => dir
  .object [("catalog_dir", .text dir), ("catalogs_loaded", .nat s.catalogs.size),
    ("by_class", .object (s.catalogs.entries.map fun (v, c) => (v.key, c.statsJson)))]

/-- The durations of a phase in milliseconds. -/
def Phase.toJson (p : Phase) : Json :=
  .object [("count", .nat p.count), ("total_ms", .float (p.total * 1000.0)),
    ("max_ms", .float (p.longest * 1000.0))]

/-- The phases, and the counters if there are any. -/
def Metrics.toJson (m : Metrics) : Json :=
  let phases : Table String Json :=
    m.phases.entries.foldl (fun t (name, p) => t.insert name p.toJson) {}
  let counters := Json.object (m.counters.entries.map fun (name, n) => (name, .int n))
  .object
    (if m.counters.entries.isEmpty then phases else phases.insert "counters" counters).entries

end TaintFlow
