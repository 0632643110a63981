import Symbolizer.Dwarf.Reader

/-! # Sequences that may end in an error

Decoding a section item by item gives the items before the first malformed one and
what is wrong there, if anything is. A search that finds its item before the fault
never learns of it.
-/

namespace Symbolizer.Dwarf

structure Decoded (α : Type) where
  items : List α
  fault : Option DecodeError
  deriving DecidableEq, Repr

namespace Decoded

variable {α β : Type}

def done : Decoded α := ⟨[], none⟩

def failed (e : DecodeError) : Decoded α := ⟨[], some e⟩

def one (a : α) : Decoded α := ⟨[a], none⟩

def cons (a : α) (rest : Decoded α) : Decoded α := ⟨a :: rest.items, rest.fault⟩

/-- What comes second counts only if the first part ends without a fault. -/
def append (first second : Decoded α) : Decoded α :=
  match first.fault with
  | some _ => first
  | none => ⟨first.items ++ second.items, second.fault⟩

def flatMapItems (f : α → Decoded β) (fault : Option DecodeError) : List α → Decoded β
  | [] => ⟨[], fault⟩
  | a :: rest => (f a).append (flatMapItems f fault rest)

/-- Replaces each item by a sequence, up to the first fault in any of them. -/
def flatMap (xs : Decoded α) (f : α → Decoded β) : Decoded β :=
  flatMapItems f xs.fault xs.items

def filterMap (f : α → Option β) (xs : Decoded α) : Decoded β :=
  ⟨xs.items.filterMap f, xs.fault⟩

def ofExcept : Except DecodeError α → Decoded α
  | .ok a => one a
  | .error e => failed e

/-- The whole sequence, unless it has a fault. -/
def toExcept (xs : Decoded α) : Except DecodeError (List α) :=
  match xs.fault with
  | some e => .error e
  | none => .ok xs.items

/-- Reads items until the bytes are used up or the reader gives none. The reader is told how
many bytes precede the item; one that takes no bytes for an item ends the sequence. -/
def unfold (step : Nat → Reader (Option α)) (position : Nat) (bytes : Bytes) : Decoded α :=
  if bytes = [] then done
  else match step position bytes with
    | .error e => failed e
    | .ok (none, _) => done
    | .ok (some a, rest) =>
      if rest.length < bytes.length then
        (unfold step (position + (bytes.length - rest.length)) rest).cons a
      else one a
termination_by bytes.length

theorem unfold_nil (step : Nat → Reader (Option α)) (position : Nat) :
    unfold step position [] = done := by
  rw [unfold]
  simp

theorem unfold_of_error {step : Nat → Reader (Option α)} {position : Nat} {bytes : Bytes}
    {e : DecodeError} (hne : bytes ≠ []) (hstep : step position bytes = .error e) :
    unfold step position bytes = failed e := by
  rw [unfold]
  simp [hne, hstep]

theorem unfold_of_step {step : Nat → Reader (Option α)} {position : Nat} {bytes rest : Bytes}
    {a : α} (hstep : step position bytes = .ok (some a, rest))
    (hlt : rest.length < bytes.length) :
    unfold step position bytes =
      (unfold step (position + (bytes.length - rest.length)) rest).cons a := by
  have hne : bytes ≠ [] := by
    rintro rfl
    simp at hlt
  rw [unfold]
  simp [hne, hstep, hlt]

end Decoded

end Symbolizer.Dwarf
