import Symbolizer.Resolve
import Symbolizer.Status

/-! # Calls from other languages

Foreign callers pass what may be null and receive a record of fixed layout. Texts in
it end at a zero byte unless they fill their array.
-/

namespace Symbolizer

structure LocationRecord where
  file : Vector UInt8 256
  functionName : Vector UInt8 256
  functionNameLength : UInt32
  line : UInt32
  functionEntry : Address
  argumentCount : UInt32
  deriving DecidableEq

def LocationRecord.ofLocation (location : Location) : LocationRecord where
  file := location.file.raw
  functionName := location.function.raw
  functionNameLength := UInt32.ofNat location.function.length
  line := location.line
  functionEntry := location.entry
  argumentCount := location.argumentCount

namespace Boundary

/-- Writes the record whenever there is one and the image, even if the lookup fails. -/
def resolveAddress (image : Option Image) (address : Address) (out : Option LocationRecord) :
    Traced Fatal (Status × Option LocationRecord) := fun trace =>
  match image, out with
  | some image, some _ =>
    match (image.resolveAddress .default address (.fresh address)).run trace with
    | (.ok location, trace) => (.ok (.ok, some (.ofLocation location)), trace)
    | (.error ⟨location, .lookup error⟩, trace) =>
      (.ok (.ofError error, some (.ofLocation location)), trace)
    | (.error ⟨_, .fatal cause⟩, trace) => (.error cause, trace)
  | _, _ => (.ok (.nullArgument, out), trace)

/-- A name ends at its first zero byte. Zero also answers for what is null. -/
def resolveName (image : Option Image) (name : Option Bytes) : Traced Fatal Address :=
  match image, name with
  | some image, some name => image.resolveName (name.takeWhile (· ≠ 0))
  | _, _ => pure 0

end Boundary

end Symbolizer
