/-!
# Evaluation errors

What ends an evaluation. Apart from a rejected promise, and from arithmetic that has no result,
these are inconsistencies that a checked program does not run into. Types appear by name.
-/

namespace ObjectGraph

/-- Why an evaluation, or the rendering of its result, failed. -/
inductive EvalError where
  /-- A name that no scope binds. -/
  | unknownBinding (name : String)
  /-- `this` where there is no receiver. -/
  | missingReceiver
  /-- Operands of two different types. -/
  | operandMismatch (op lhs rhs : String)
  /-- An operator that the type does not have. -/
  | unsupportedOperator (op ty : String)
  /-- An index into something that has no elements. -/
  | unsupportedIndex (ty : String)
  /-- A member that the instance does not have. -/
  | unknownProperty (ty name : String)
  /-- A method of a class that the instance was not built as. -/
  | missingMethodScope (ty owner : String)
  /-- A method without a body that no plugin answers. -/
  | missingMethodBody (method : String)
  /-- A hook that was never registered. -/
  | unknownHook (hook : String)
  /-- A division or remainder by zero. -/
  | divisionByZero
  /-- An integer result that does not fit. -/
  | overflow (op : String)
  /-- No final state within the allowed sweeps, or none that could still be reached. -/
  | nonTermination (sweeps : Nat)
  /-- A promise whose task failed. -/
  | promiseRejected (message : String)
  /-- A value that is not final where a final one is needed. -/
  | unreduced (path : String)
  /-- A value that contains itself. -/
  | cycle (path : String)
  /-- An instance without the data that its type promises. -/
  | invalidPayload (ty expected : String)
deriving DecidableEq, Repr

/-- The error in one sentence. -/
def EvalError.message : EvalError → String
  | unknownBinding name => s!"unknown binding `{name}`"
  | missingReceiver => "`this` used outside of an instance scope"
  | operandMismatch op lhs rhs => s!"operator `{op}` applied to `{lhs}` and `{rhs}`"
  | unsupportedOperator op ty => s!"type `{ty}` does not support operator `{op}`"
  | unsupportedIndex ty => s!"type `{ty}` cannot be indexed"
  | unknownProperty ty name => s!"type `{ty}` has no property `{name}`"
  | missingMethodScope ty owner => s!"instance of `{ty}` has no constructor scope for `{owner}`"
  | missingMethodBody method => s!"method `{method}` has no body and no native implementation"
  | unknownHook hook => s!"no host hook registered as `{hook}`"
  | divisionByZero => "division by zero"
  | overflow op => s!"arithmetic overflow in `{op}`"
  | nonTermination sweeps => s!"evaluation did not converge after {sweeps} sweeps"
  | promiseRejected message => s!"promise rejected: {message}"
  | unreduced path => s!"`{path}` did not reduce to a value"
  | cycle path => s!"`{path}` refers back to an enclosing instance"
  | invalidPayload ty expected => s!"instance of `{ty}` does not carry a {expected} payload"

end ObjectGraph
