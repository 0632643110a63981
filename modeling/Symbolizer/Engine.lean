import Symbolizer.Lookup

/-! # Lookup engines

An engine answers six primitive questions about an image. Resolvers are written
against an arbitrary engine.
-/

namespace Symbolizer

structure SourceFile where
  name : Bytes
  /-- Where the line program is. -/
  lineProgram : Nat
  deriving DecidableEq, Repr

structure Function where
  name : Bytes
  entry : Address
  deriving DecidableEq, Repr

structure Engine where
  /-- The unit that covers an address, given by where its header is. -/
  unitForAddress : Address → Lookup Nat
  fileForUnit : Nat → Lookup SourceFile
  lineForAddress : Address → Nat → Lookup UInt32
  functionForAddress : Address → Nat → Lookup Function
  addressByIndex : Bytes → Lookup Address
  addressByScan : Bytes → Lookup Address

end Symbolizer
