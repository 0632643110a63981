import Symbolizer.Message
import Symbolizer.Dwarf.Decoded

/-! # Lookups

A lookup reports messages on its way to an answer or an error. The messages of a
lookup that fails are kept.
-/

namespace Symbolizer

structure Lookup (α : Type) where
  log : List Message
  answer : Except LookupError α

namespace Lookup

variable {α β : Type}

def ofExcept (answer : Except LookupError α) : Lookup α := ⟨[], answer⟩

def fail (error : LookupError) : Lookup α := ofExcept (.error error)

def tell (message : Message) : Lookup Unit := ⟨[message], .ok ()⟩

/-- A decoding step of a lookup. -/
def decode (answer : Except Dwarf.DecodeError α) : Lookup α := ofExcept (answer.mapError .format)

instance : Monad Lookup where
  pure a := ofExcept (.ok a)
  bind first next :=
    match first.answer with
    | .ok a => ⟨first.log ++ (next a).log, (next a).answer⟩
    | .error e => ⟨first.log, .error e⟩

theorem answer_bind (first : Lookup α) (next : α → Lookup β) :
    (first >>= next).answer = first.answer >>= fun a => (next a).answer := by
  cases first with
  | mk log answer => cases answer <;> rfl

/-- The first answer among items. -/
def firstOf (f : α → Lookup (Option β)) : List α → Lookup (Option β)
  | [] => pure none
  | a :: rest => do
    match ← f a with
    | some found => pure (some found)
    | none => firstOf f rest

/-- The first answer among the items of a sequence. A fault counts only if no item before it
answers; if none does and there is no fault, there is nothing to be found. -/
def search (xs : Dwarf.Decoded α) (f : α → Lookup (Option β)) : Lookup (Option β) := do
  match ← firstOf f xs.items with
  | some found => pure (some found)
  | none =>
    match xs.fault with
    | some e => fail (.format e)
    | none => pure none

def orNotFound (found : Lookup (Option α)) : Lookup α := do
  match ← found with
  | some a => pure a
  | none => fail .notFound

end Lookup

end Symbolizer
