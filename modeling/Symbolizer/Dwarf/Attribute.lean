import Symbolizer.Dwarf.Abbreviation
import Symbolizer.Dwarf.Encoding

/-! # Attributes

A form says how the value of an attribute is written. Values keep what the lookups
can tell apart: strings, references and addresses that lie in sections which are
not at hand are known to be such, and nothing more.
-/

namespace Symbolizer.Dwarf

/-- How a number inside an attribute value is written. -/
inductive Operand
  | fixed (bytes : Nat)
  | offset
  | uleb
  deriving DecidableEq, Repr

def Operand.read (format : Format) : Operand → Reader Nat
  | fixed bytes => Reader.word bytes
  | offset => format.offset
  | uleb => Reader.uleb

inductive Form
  | address
  | addressIndex (index : Operand)
  | data (bytes : Nat)
  | unsignedData
  | signedData
  | flag
  | flagPresent
  | sectionOffset
  | string
  | stringOffset
  /-- A string of a section that is not at hand. -/
  | absentString (operand : Operand)
  | unitReference (operand : Operand)
  | sectionReference
  | rangeListIndex
  | block (length : Operand)
  /-- A value that no lookup has a use for. -/
  | unused (operand : Operand)
  deriving DecidableEq, Repr

def Form.ofCode : Nat → Option Form
  | 0x01 => some address
  | 0x03 => some (block (.fixed 2))
  | 0x04 => some (block (.fixed 4))
  | 0x05 => some (data 2)
  | 0x06 => some (data 4)
  | 0x07 => some (data 8)
  | 0x08 => some string
  | 0x09 => some (block .uleb)
  | 0x0a => some (block (.fixed 1))
  | 0x0b => some (data 1)
  | 0x0c => some flag
  | 0x0d => some signedData
  | 0x0e => some stringOffset
  | 0x0f => some unsignedData
  | 0x10 => some sectionReference
  | 0x11 => some (unitReference (.fixed 1))
  | 0x12 => some (unitReference (.fixed 2))
  | 0x13 => some (unitReference (.fixed 4))
  | 0x14 => some (unitReference (.fixed 8))
  | 0x15 => some (unitReference .uleb)
  | 0x17 => some sectionOffset
  | 0x18 => some (block .uleb)
  | 0x19 => some flagPresent
  | 0x1a => some (absentString .uleb)
  | 0x1b => some (addressIndex .uleb)
  | 0x1c => some (unused (.fixed 4))
  | 0x1d => some (unused .offset)
  | 0x1e => some (unused (.fixed 16))
  | 0x1f => some (absentString .offset)
  | 0x20 => some (unused (.fixed 8))
  | 0x22 => some (unused .uleb)
  | 0x23 => some rangeListIndex
  | 0x24 => some (unused (.fixed 8))
  | 0x25 => some (absentString (.fixed 1))
  | 0x26 => some (absentString (.fixed 2))
  | 0x27 => some (absentString (.fixed 3))
  | 0x28 => some (absentString (.fixed 4))
  | 0x29 => some (addressIndex (.fixed 1))
  | 0x2a => some (addressIndex (.fixed 2))
  | 0x2b => some (addressIndex (.fixed 3))
  | 0x2c => some (addressIndex (.fixed 4))
  | 0x1f01 => some (addressIndex .uleb)
  | 0x1f02 => some (absentString .uleb)
  | 0x1f20 => some (unused .offset)
  | 0x1f21 => some (unused .offset)
  | _ => none

inductive Value
  | address (address : Address)
  | addressIndex
  | constant (n : Nat)
  | flag (set : Bool)
  | sectionOffset (offset : Nat)
  | string (text : Bytes)
  | stringOffset (offset : Nat)
  | absentString
  | unitReference (offset : Nat)
  | sectionReference (offset : Nat)
  | rangeListIndex
  | unused
  deriving DecidableEq, Repr

/-- A negative number is of no use to any lookup. -/
def Value.ofInt : Int → Value
  | .ofNat n => constant n
  | .negSucc _ => unused

/-- Whether plain data as wide as an offset is an offset for this attribute. -/
def AttributeName.isSectionOffset : AttributeName → Bool
  | lineProgram | ranges => true
  | _ => false

/-- References between units were as wide as addresses in version 2. -/
def Encoding.sectionReference (encoding : Encoding) : Reader Nat :=
  if encoding.version = 2 then Reader.word encoding.addressSize.bytes else encoding.format.offset

def Form.read (encoding : Encoding) (target : AttributeName) : Form → Reader Value
  | address => .address <$> encoding.addressSize.address
  | addressIndex index => do
    discard (index.read encoding.format)
    pure .addressIndex
  | data bytes => do
    let n ← Reader.word bytes
    if target.isSectionOffset ∧ bytes = encoding.format.offsetSize then pure (.sectionOffset n)
    else pure (.constant n)
  | unsignedData => .constant <$> Reader.uleb
  | signedData => .ofInt <$> Reader.sleb
  | flag => (fun n => .flag (n ≠ 0)) <$> Reader.byte
  | flagPresent => pure (.flag true)
  | sectionOffset => .sectionOffset <$> encoding.format.offset
  | string => .string <$> Reader.name
  | stringOffset => .stringOffset <$> encoding.format.offset
  | absentString operand => do
    discard (operand.read encoding.format)
    pure .absentString
  | unitReference operand => .unitReference <$> operand.read encoding.format
  | sectionReference => .sectionReference <$> encoding.sectionReference
  | rangeListIndex => do
    discard Reader.uleb
    pure .rangeListIndex
  | block length => do
    Reader.skip (← length.read encoding.format)
    pure .unused
  | unused operand => do
    discard (operand.read encoding.format)
    pure .unused

/-- The mark of a form that is itself written before the value. -/
def indirectForm : Nat := 0x16

/-- The form that a code stands for, read from the bytes as often as they say so. -/
def Form.resolve (code : Nat) (bytes : Bytes) : Except DecodeError (Form × Bytes) :=
  if code = indirectForm then
    match _hcode : Leb128.unsigned 16 bytes with
    | .error e => .error e
    | .ok (code, rest) => resolve code rest
  else if code = implicitConstantForm then .error .misplacedImplicitConstant
  else match Form.ofCode code with
    | some form => .ok (form, bytes)
    | none => .error .unknownForm
termination_by bytes.length
decreasing_by exact Leb128.unsigned_length _hcode

structure Attribute where
  name : AttributeName
  value : Value
  deriving DecidableEq, Repr

namespace Attribute

def read (encoding : Encoding) (spec : AttributeSpec) : Reader Attribute := do
  match spec.constant with
  | some i => pure ⟨spec.name, .ofInt i⟩
  | none =>
    let form ← Form.resolve spec.form
    return ⟨spec.name, ← form.read encoding spec.name⟩

/-- The attributes of an entry, up to the first that cannot be read, and what follows them. -/
def readAll (encoding : Encoding) : List AttributeSpec → Bytes → Decoded Attribute × Bytes
  | [], bytes => (.done, bytes)
  | spec :: specs, bytes =>
    match read encoding spec bytes with
    | .error e => (.failed e, [])
    | .ok (first, rest) =>
      let (others, rest) := readAll encoding specs rest
      (others.cons first, rest)

/-- The value of the last attribute of a name: of repeated ones, the last counts. -/
def last (target : AttributeName) (attributes : List Attribute) : Option Value :=
  (attributes.filter (·.name = target)).getLast?.map Attribute.value

end Attribute

end Symbolizer.Dwarf
