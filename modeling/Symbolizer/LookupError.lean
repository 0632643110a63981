import Symbolizer.Dwarf.DecodeError

/-! # Lookup errors

Only `notFound` means that there is nothing to be found. Every other error means
that the data contradicts its own format.
-/

namespace Symbolizer

inductive LookupError
  | notFound
  | missingLineProgram
  | addressOverflow
  | referenceChainTooLong
  | badReference
  | format (cause : Dwarf.DecodeError)
  deriving DecidableEq, Repr

namespace LookupError

def message : LookupError → String
  | notFound => "No matching entry"
  | missingLineProgram => "Unit has no line-number program"
  | addressOverflow => "Address range wraps around the address space"
  | referenceChainTooLong => "DIE reference chain too long"
  | badReference => "DIE reference points outside of .debug_info"
  | format cause => "DWARF: " ++ cause.message

end LookupError

end Symbolizer
