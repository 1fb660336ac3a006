/-!
# Cancellation

A scan asks now and then whether it is to stop.  A token is the number of times that the answer
is still no.
-/

namespace TaintFlow

/-- Answers to the question whether to stop: never, or from some question on. -/
inductive Cancellation where
  | never
  | after (questions : Nat)
  deriving DecidableEq, Repr

namespace Cancellation

/-- Whether to stop now, and the token for the next question. -/
def poll : Cancellation → Bool × Cancellation
  | never => (false, never)
  | after 0 => (true, after 0)
  | after (n + 1) => (false, after n)

end Cancellation

end TaintFlow
