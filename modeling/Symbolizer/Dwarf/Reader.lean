import Symbolizer.Dwarf.Leb128

/-! # Readers

A reader takes a value off the front of a piece of bytes and leaves the rest, or
finds out why it cannot. Reading past the end of the piece is an error.
-/

namespace Symbolizer.Dwarf

abbrev Reader := StateT Bytes (Except DecodeError)

namespace Reader

variable {α : Type}

def take (count : Nat) : Reader Bytes := fun bytes =>
  if count ≤ bytes.length then .ok (bytes.take count, bytes.drop count)
  else .error .endOfInput

def skip (count : Nat) : Reader Unit := discard (take count)

/-- All that is left. -/
def remaining : Reader Bytes := fun bytes => .ok (bytes, [])

/-- A number of `count` bytes, least significant first. -/
def word (count : Nat) : Reader Nat := Bytes.toNat <$> take count

def byte : Reader Nat := word 1

/-- A name ended by a zero byte, which is not part of it. -/
def name : Reader Bytes := fun bytes =>
  match bytes.splitZero with
  | some found => .ok found
  | none => .error .endOfInput

def uleb : Reader Nat := Leb128.unsigned 64

def sleb : Reader Int := Leb128.signed 64

/-- A tag, attribute name or form: sixteen bits. -/
def code : Reader Nat := Leb128.unsigned 16

/-- Reads from the next `count` bytes alone; what is left of those is passed over. -/
def within (count : Nat) (inner : Reader α) : Reader α := do
  let piece ← take count
  let (value, _) ← inner.run piece
  pure value

/-- Takes values until the reader says that there are no more. A reader that takes no bytes for
a value would never say so. -/
def many (step : Reader (Option α)) (bytes : Bytes) : Except DecodeError (List α × Bytes) :=
  match step bytes with
  | .error e => .error e
  | .ok (none, rest) => .ok ([], rest)
  | .ok (some value, rest) =>
    if rest.length < bytes.length then do
      let (values, rest) ← many step rest
      .ok (value :: values, rest)
    else .error .endOfInput
termination_by bytes.length

/-- Takes a given number of values, stopping at the first that cannot be read. -/
def times (step : Reader α) : Nat → Reader (List α)
  | 0 => pure []
  | count + 1 => do
    let value ← step
    return value :: (← times step count)

theorem take_append {bytes rest : Bytes} {count : Nat} (hcount : bytes.length = count) :
    take count (bytes ++ rest) = .ok (bytes, rest) := by
  subst hcount
  simp [take]

theorem name_append {text : Bytes} (htext : 0 ∉ text) (rest : Bytes) :
    name (Bytes.terminated text ++ rest) = .ok (text, rest) := by
  simp [name, Bytes.splitZero_terminated htext]

end Reader

end Symbolizer.Dwarf
