import TaintFlow.Scanner
import TaintFlow.Yaml.Value

/-!
# Readers

The readers that the program runs with: sources are in Java, documents in YAML.
-/

namespace TaintFlow

/-- Reads sources in Java and documents in YAML. -/
def Readers.standard : Readers where
  source := Java.parsed
  document := Yaml.value

end TaintFlow
