import Symbolizer.LookupError

/-! # Status codes

What foreign callers learn of the outcome of a call.
-/

namespace Symbolizer

inductive Status
  | ok
  | notFound
  | malformed
  | nullArgument
  deriving DecidableEq, Repr

namespace Status

def code : Status → Nat
  | ok => 0
  | notFound => 1
  | malformed => 2
  | nullArgument => 3

def message : Status → String
  | ok => "OK: not actually an error"
  | notFound => "No debug information for the requested item"
  | malformed => "Malformed debug information"
  | nullArgument => "Required pointer argument was NULL"

def toResult : Status → Except Status Unit
  | ok => .ok ()
  | status => .error status

def ofResult : Except Status Unit → Status
  | .ok () => ok
  | .error status => status

def ofError : LookupError → Status
  | .notFound => notFound
  | _ => malformed

theorem ofResult_toResult (status : Status) : ofResult status.toResult = status := by
  cases status <;> rfl

end Status

end Symbolizer
