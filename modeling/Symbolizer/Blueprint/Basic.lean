import Symbolizer.Bytes

/-! # Blueprints of images

A blueprint describes an image by what a lookup should find in it: units with their
functions and variables, symbols, and entries of the index of names that lead
nowhere. It grows by additions.
-/

namespace Symbolizer

/-- How the debug entry of a function is laid out. -/
inductive FunctionShape
  | contiguous
  /-- With a list of ranges, which is not part of the image. -/
  | rangeList
  /-- Without a name, as an instance of an inlined function. -/
  | outOfLine
  /-- Without a name, completing a declaration. -/
  | separatelyDeclared
  deriving DecidableEq, Repr

/-- The line that starts so many bytes behind the start of its function. -/
structure RowBlueprint where
  offset : UInt64
  line : UInt32
  deriving DecidableEq, Repr

structure FunctionBlueprint where
  name : Bytes
  low : Address
  length : UInt64
  rows : List RowBlueprint
  /-- Whether the index of names lists the function. -/
  indexed : Bool
  shape : FunctionShape
  deriving DecidableEq, Repr

structure UnitBlueprint where
  file : Bytes
  functions : List FunctionBlueprint
  variableNames : List Bytes
  deriving DecidableEq, Repr

structure SymbolBlueprint where
  name : Bytes
  value : Address
  binding : UInt8
  kind : UInt8
  deriving DecidableEq, Repr

def SymbolBlueprint.globalFunction (name : Bytes) (value : Address) : SymbolBlueprint :=
  ⟨name, value, 1, 2⟩

/-- An entry of the index of names that points to a unit which is not there. -/
structure DanglingName where
  name : Bytes
  unit : UInt32
  deriving DecidableEq, Repr

structure Blueprint where
  units : List UnitBlueprint
  symbols : List SymbolBlueprint
  /-- Whether the image has an index from addresses to units. -/
  addressIndex : Bool
  danglingNames : List DanglingName
  deriving DecidableEq, Repr

/-- Why a blueprint cannot be drawn or an image not be assembled. -/
inductive BlueprintError
  | variableOutsideUnit
  | emptyFile
  | zeroInFile
  /-- A row, or the end of the code, lies before the row in front of it. -/
  | descendingOffset
  | productOverflow
  | sumOverflow
  | zeroInName
  | emptyRange
  /-- An offset or a length does not fit the four bytes that it is written in. -/
  | wideValue
  deriving DecidableEq, Repr

namespace BlueprintError

def message : BlueprintError → String
  | variableOutsideUnit => "variable() requires a unit"
  | emptyFile => "assertion failed: !val.is_empty()"
  | zeroInFile => "assertion failed: !val.contains(&0)"
  | descendingOffset => "assertion failed: self.row.address_offset >= self.prev_row.address_offset"
  | productOverflow => "attempt to multiply with overflow"
  | sumOverflow => "attempt to add with overflow"
  | zeroInName => "assertion failed: !bytes.contains(&0)"
  | emptyRange => "write unit: InvalidRange"
  | wideValue => "write unit: ValueTooLarge"

/-- Goes on only if a condition holds. -/
def require (condition : Prop) [Decidable condition] (error : BlueprintError) :
    Except BlueprintError Unit :=
  if condition then .ok () else .error error

end BlueprintError

inductive Addition
  | unit (file : Bytes) (functions : List FunctionBlueprint)
  /-- A variable of the unit that was added last. -/
  | variable (name : Bytes)
  | symbol (symbol : SymbolBlueprint)
  | withoutAddressIndex
  | danglingName (entry : DanglingName)
  deriving DecidableEq, Repr

namespace Blueprint

def empty : Blueprint := ⟨[], [], true, []⟩

def addVariable (name : Bytes) : List UnitBlueprint → Except BlueprintError (List UnitBlueprint)
  | [] => .error .variableOutsideUnit
  | [last] => .ok [{ last with variableNames := last.variableNames ++ [name] }]
  | unit :: rest => return unit :: (← addVariable name rest)

def add (blueprint : Blueprint) : Addition → Except BlueprintError Blueprint
  | .unit file functions =>
    .ok { blueprint with units := blueprint.units ++ [⟨file, functions, []⟩] }
  | .variable name => return { blueprint with units := ← addVariable name blueprint.units }
  | .symbol symbol => .ok { blueprint with symbols := blueprint.symbols ++ [symbol] }
  | .withoutAddressIndex => .ok { blueprint with addressIndex := false }
  | .danglingName entry =>
    .ok { blueprint with danglingNames := blueprint.danglingNames ++ [entry] }

/-- The blueprint that additions draw from nothing. -/
def ofAdditions (additions : List Addition) : Except BlueprintError Blueprint :=
  additions.foldlM add empty

end Blueprint

end Symbolizer
