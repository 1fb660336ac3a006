import TaintFlow.Table
import TaintFlow.Text.Decimal

/-!
# Metrics

The durations of the phases of a scan, and counters.
-/

namespace TaintFlow

/-- The durations of the runs of one phase, in seconds. -/
structure Phase where
  count : Nat := 0
  total : Float := 0.0
  /-- Infinite as long as there is no run. -/
  shortest : Float := 1.0 / 0.0
  longest : Float := 0.0

namespace Phase

/-- The average duration, zero if there is no run. -/
def average (p : Phase) : Float :=
  if p.count = 0 then 0.0 else p.total / Float.ofNat p.count

/-- Adds a run. -/
def add (p : Phase) (seconds : Float) : Phase where
  count := p.count + 1
  total := p.total + seconds
  shortest := if seconds < p.shortest then seconds else p.shortest
  longest := if seconds > p.longest then seconds else p.longest

/-- A duration in milliseconds with two decimal places. -/
def milliseconds (seconds : Float) : String :=
  Text.fixed 2 (seconds * 1000.0) ++ "ms"

/-- One line on a phase. -/
def toText (p : Phase) (name : String) : String :=
  if p.count = 0 then name ++ ": no measurements"
  else
    name ++ ": " ++ toString p.count ++ " run(s), total=" ++ milliseconds p.total
      ++ ", avg=" ++ milliseconds p.average ++ ", max=" ++ milliseconds p.longest

end Phase

/-- The phases and counters of a scan. -/
structure Metrics where
  phases : Table String Phase := {}
  counters : Table String Int := {}

namespace Metrics

/-- Adds a run of a phase. -/
def record (m : Metrics) (phase : String) (seconds : Float) : Metrics :=
  { m with phases := m.phases.update phase {} (·.add seconds) }

/-- Adds to a counter. -/
def increment (m : Metrics) (counter : String) (amount : Int) : Metrics :=
  { m with counters := m.counters.update counter 0 (· + amount) }

/-- The phases, the longest first. -/
def byDuration (m : Metrics) : List (String × Phase) :=
  m.phases.entries.mergeSort fun a b => a.2.total ≥ b.2.total

/-- The counters by name. -/
def sortedCounters (m : Metrics) : List (String × Int) :=
  m.counters.entries.mergeSort fun a b => !decide (b.1 < a.1)

/-- A summary of all phases and counters. -/
def summary (m : Metrics) : String :=
  if m.phases.entries.isEmpty && m.counters.entries.isEmpty then "No metrics collected"
  else
    let head := ["Performance Metrics:", String.ofList (List.replicate 60 '-')]
    let phases := m.byDuration.map fun (name, p) => p.toText name
    let counters := m.sortedCounters.map fun (name, n) => name ++ ": " ++ toString n
    "\n".intercalate (head ++ phases ++ counters)

end Metrics

end TaintFlow
