/-! # Decoding errors

Each way in which section bytes can contradict their own format, and its wording.
-/

namespace Symbolizer.Dwarf

inductive DecodeError
  | endOfInput
  | badUnsigned
  | badSigned
  | zeroTag
  | zeroForm
  | badChildrenFlag
  | expectedZero
  | duplicateCode
  | unknownCode
  | unknownForm
  | misplacedImplicitConstant
  | reservedLength
  | unknownVersion
  | addressSize
  | segmentSize
  | unitType
  | missingRoot
  | outOfBounds
  | noEntry
  | addressForm
  | expectedString
  | addressOverflow
  | zeroInstructionLength
  | zeroOperationCount
  | zeroLineRange
  | zeroOpcodeBase
  | missingPath
  deriving DecidableEq, Repr

def DecodeError.message : DecodeError → String
  | .endOfInput => "Hit the end of input before it was expected"
  | .badUnsigned => "An error parsing an unsigned LEB128 value"
  | .badSigned => "An error parsing a signed LEB128 value"
  | .zeroTag =>
    "An abbreviation declared that its tag is zero,\n" ++
      "                 but zero is reserved for null records"
  | .zeroForm =>
    "An attribute specification declared that its form is zero,\n" ++
      "                 but zero is reserved for null records"
  | .badChildrenFlag =>
    "The abbreviation's has-children byte was not one of\n" ++
      "                 `DW_CHILDREN_\x7byes,no\x7d`"
  | .expectedZero => "Expected a zero, found something else"
  | .duplicateCode => "Found an abbreviation code that has already been used"
  | .unknownCode => "Found a record with an unknown abbreviation code"
  | .unknownForm => "Found an unknown `DW_FORM_*` type"
  | .misplacedImplicitConstant => "DW_FORM_implicit_const used in an invalid context."
  | .reservedLength => "Found an unknown reserved length value"
  | .unknownVersion => "Found an unknown DWARF version"
  | .addressSize => "The specified address size is not supported"
  | .segmentSize => "Nonzero segment size not supported yet"
  | .unitType => "The `DW_UT_*` value for this unit is not supported yet"
  | .missingRoot => "A compilation unit or type unit is missing its top level DIE."
  | .outOfBounds => "The given offset is out of bounds."
  | .noEntry => "Did not find an entry at the given offset."
  | .addressForm => "A DIE attribute used an unsupported form."
  | .expectedString => "Expected an attribute value to be a string form."
  | .addressOverflow => "An address calculation overflowed."
  | .zeroInstructionLength => "The minimum instruction length must not be zero."
  | .zeroOperationCount => "The maximum operations per instruction must not be zero."
  | .zeroLineRange => "The line range must not be zero."
  | .zeroOpcodeBase => "The opcode base must not be zero."
  | .missingPath => "Missing DW_LNCT_path in file entry format."

end Symbolizer.Dwarf
