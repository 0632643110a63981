import Symbolizer.Dwarf.Decoded
import Symbolizer.Proofs.Resolving

/-! # What is reported on the way

A property of messages that holds of all that each step reports holds of all that the
whole reports, be it a lookup or a computation that asks an engine. Behind an error
nothing is reported.
-/

namespace Symbolizer

namespace Lookup

variable {α β : Type} {P : Message → Prop}

/-- All that the lookup reports has the property. -/
def Logs (P : Message → Prop) (lookup : Lookup α) : Prop := ∀ message ∈ lookup.log, P message

namespace Logs

theorem ofExcept (answer : Except LookupError α) : Logs P (ofExcept answer) :=
  List.forall_mem_nil _

theorem tell {message : Message} (h : P message) : Logs P (tell message) :=
  List.forall_mem_singleton.mpr h

theorem bind {first : Lookup α} {next : α → Lookup β} (h : Logs P first)
    (hnext : ∀ a, first.answer = .ok a → Logs P (next a)) : Logs P (first >>= next) := by
  obtain ⟨log, answer⟩ := first
  cases answer with
  | error e => exact h
  | ok a => exact List.forall_mem_append.mpr ⟨h, hnext a rfl⟩

theorem firstOf {f : α → Lookup (Option β)} {items : List α} (h : ∀ a ∈ items, Logs P (f a)) :
    Logs P (firstOf f items) := by
  induction items with
  | nil => exact ofExcept _
  | cons a items ih =>
      obtain ⟨ha, hrest⟩ := List.forall_mem_cons.mp h
      apply bind ha
      intro own _
      cases own with
      | none => exact ih hrest
      | some b => exact ofExcept _

theorem search {xs : Dwarf.Decoded α} {f : α → Lookup (Option β)}
    (h : ∀ a ∈ xs.items, Logs P (f a)) : Logs P (search xs f) := by
  apply bind (firstOf h)
  intro own _
  cases own with
  | some b => exact ofExcept _
  | none => cases xs.fault <;> exact ofExcept _

theorem orNotFound {found : Lookup (Option α)} (h : Logs P found) : Logs P (orNotFound found) := by
  apply bind h
  intro own _
  cases own <;> exact ofExcept _

end Logs

end Lookup

namespace Traced

variable {ε α β : Type} {P : Message → Prop}

/-- All that the computation reports has the property. -/
def Logs (P : Message → Prop) (computation : Traced ε α) : Prop :=
  ∀ trace, (∀ message ∈ trace.log, P message) →
    ∀ message ∈ ((computation.run).run trace).2.log, P message

namespace Logs

theorem start {computation : Traced ε α} (h : Logs P computation) :
    ∀ message ∈ computation.start.2.log, P message := h .empty (List.forall_mem_nil _)

theorem pure (a : α) : Logs P (pure a : Traced ε α) := fun _ h => h

theorem throw (e : ε) : Logs P (throw e : Traced ε α) := fun _ h => h

theorem tell {message : Message} (h : P message) : Logs P (tell message : Traced ε Unit) :=
  fun _ hlog => List.forall_mem_append.mpr ⟨hlog, List.forall_mem_singleton.mpr h⟩

theorem ask (call : Call) {lookup : Lookup α} (h : lookup.Logs P) :
    Logs P (ask call lookup : Traced ε (Except LookupError α)) :=
  fun _ hlog => List.forall_mem_append.mpr ⟨hlog, h⟩

theorem bind {first : Traced ε α} {next : α → Traced ε β} (h : Logs P first)
    (hnext : ∀ a, Logs P (next a)) : Logs P (first >>= next) := by
  intro trace hlog
  cases hfirst : ((first.run).run trace).1 with
  | error e =>
      rw [run_bind_of_error hfirst]
      exact h trace hlog
  | ok a =>
      rw [run_bind_of_ok hfirst]
      exact hnext a _ (h trace hlog)

/-- Nothing is reported behind an early stop. -/
theorem throw_bind (e : ε) (next : α → Traced ε β) :
    Logs P ((MonadExcept.throw e : Traced ε α) >>= next) := fun _ h => h

end Logs

end Traced

end Symbolizer
