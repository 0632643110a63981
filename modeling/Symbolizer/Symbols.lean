import Symbolizer.Image

/-! # The symbol table

The last source of function addresses: routines without debug entries still have a
symbol. Every record counts on its own, and one whose name cannot be read is passed
over.
-/

namespace Symbolizer

structure SymbolRecord where
  /-- Where the name starts in the table of names. -/
  name : Nat
  binding : Nat
  kind : Nat
  value : Address
  deriving DecidableEq, Repr

structure Symbol where
  name : Bytes
  value : Address
  deriving DecidableEq, Repr

namespace SymbolRecord

def size : Nat := 24

def globalBinding : Nat := 1

def functionKind : Nat := 2

/-- The record in `size` bytes: name, binding and kind packed, two fields that are not used,
value, and a size that is not used. -/
def decode (bytes : Bytes) : SymbolRecord :=
  let info := Bytes.toNat ((bytes.drop 4).take 1)
  ⟨Bytes.toNat (bytes.take 4), info / 16, info % 16,
    UInt64.ofNat (Bytes.toNat ((bytes.drop 8).take 8))⟩

/-- Bytes at the end that form no whole record are left out. -/
def decodeAll (bytes : Bytes) : List SymbolRecord :=
  if size ≤ bytes.length then decode (bytes.take size) :: decodeAll (bytes.drop size) else []
termination_by bytes.length
decreasing_by simp only [List.length_drop, size] at *; omega

def isGlobalFunction (record : SymbolRecord) : Bool :=
  record.binding = globalBinding && record.kind = functionKind

end SymbolRecord

/-- The name at an offset, up to the zero byte that ends it. -/
def SymbolNames.nameAt (offset : Nat) : SymbolNames → Option Bytes
  | .table bytes | .memory bytes => (Bytes.splitZero (bytes.drop offset)).map Prod.fst

structure SymbolTable where
  records : List SymbolRecord
  names : SymbolNames
  deriving DecidableEq, Repr

namespace SymbolTable

/-- The symbol that a record stands for, if it is a global function with a name. -/
def function? (names : SymbolNames) (record : SymbolRecord) : Option Symbol :=
  if record.isGlobalFunction then
    (names.nameAt record.name).map fun name => ⟨name, record.value⟩
  else none

def functions (table : SymbolTable) : List Symbol :=
  table.records.filterMap (function? table.names)

/-- The value of the first function of exactly this name. -/
def find? (table : SymbolTable) (name : Bytes) : Option Address :=
  (table.functions.find? (·.name = name)).map Symbol.value

end SymbolTable

def Image.symbolTable (image : Image) : SymbolTable :=
  ⟨SymbolRecord.decodeAll image.symbols, image.symbolNames⟩

end Symbolizer
