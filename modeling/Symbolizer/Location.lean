import Symbolizer.Bounded
import Symbolizer.Text.Hex

/-! # Source locations

A location is storage that its caller keeps. Resolving resets it first and then fills
it step by step, so that what is not known still reads as unknown.
-/

namespace Symbolizer

structure Location where
  address : Address
  file : Bounded 256
  line : UInt32
  function : Bounded 256
  /-- Where the function starts. -/
  entry : Address
  argumentCount : UInt32
  deriving DecidableEq

namespace Location

def unknownName : Bytes := Bytes.ofText "<unknown>"

/-- A location of which nothing is known. -/
def fresh (address : Address) : Location :=
  ⟨address, .ofBytes unknownName, 0, .ofBytes unknownName, address, 0⟩

/-- Overwrites everything that an earlier use has left. -/
def reset (location : Location) (address : Address) : Location :=
  { location with
    address, file := location.file.copyFrom unknownName, line := 0,
    function := location.function.copyFrom unknownName, entry := address, argumentCount := 0 }

theorem reset_eq_fresh (location : Location) (address : Address) :
    location.reset address = fresh address := by
  simp [reset, fresh, Bounded.copyFrom_eq_ofBytes]

/-- How far the address lies behind the start of the function. -/
def offset (location : Location) : UInt64 := location.address - location.entry

def text (location : Location) : String :=
  location.file.text ++ ":" ++ toString location.line.toNat ++ ": " ++
    location.function.text ++ "+" ++ Hex.ofAddress location.offset

end Location

end Symbolizer
