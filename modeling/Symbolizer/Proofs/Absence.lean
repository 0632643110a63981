import Symbolizer.Dwarf.Engine
import Symbolizer.Proofs.Searches

/-! # What it means that nothing is found

Only the end of a search reports that there is nothing to be found. Every step on the
way, be it a decoding or a reference that is followed, fails only where the data is
corrupt. So a name that a source does not know has been looked for in all of it.
-/

namespace Symbolizer

/-- If the answer is an error, it is not that there is nothing to be found. -/
def Structural {α : Type} (answer : Except LookupError α) : Prop := answer ≠ .error .notFound

namespace Structural

variable {α β : Type}

theorem ok (a : α) : Structural (.ok a) := nofun

theorem error_iff {e : LookupError} :
    Structural (.error e : Except LookupError α) ↔ e ≠ .notFound :=
  not_congr ⟨Except.error.inj, congrArg Except.error⟩

theorem format (answer : Except Dwarf.DecodeError α) : Structural (answer.mapError .format) := by
  cases answer with
  | error e => exact nofun
  | ok a => exact nofun

theorem bind {first : Except LookupError α} {next : α → Except LookupError β}
    (h : Structural first) (hnext : ∀ a, Structural (next a)) : Structural (first >>= next) := by
  cases first with
  | error e => exact error_iff.mpr (error_iff.mp h)
  | ok a => exact hnext a

theorem map {answer : Except LookupError α} (h : Structural answer) (f : α → β) :
    Structural (f <$> answer) := by
  cases answer with
  | error e => exact error_iff.mpr (error_iff.mp h)
  | ok a => exact ok (f a)

end Structural

namespace Lookup

variable {α β : Type}

theorem structural_bind {first : Lookup α} {next : α → Lookup β} (h : Structural first.answer)
    (hnext : ∀ a, Structural (next a).answer) : Structural (first >>= next).answer := by
  rw [answer_bind]
  exact h.bind hnext

theorem structural_firstOf {f : α → Lookup (Option β)} (h : ∀ a, Structural (f a).answer)
    (items : List α) : Structural (firstOf f items).answer := by
  induction items with
  | nil => exact .ok none
  | cons a items ih =>
      apply structural_bind (h a)
      intro own
      cases own with
      | none => exact ih
      | some b => exact .ok (some b)

theorem structural_search {f : α → Lookup (Option β)} (h : ∀ a, Structural (f a).answer)
    (xs : Dwarf.Decoded α) : Structural (search xs f).answer := by
  apply structural_bind (structural_firstOf h xs.items)
  intro own
  cases own with
  | some b => exact .ok (some b)
  | none =>
      cases hfault : xs.fault with
      | none => exact .ok none
      | some e => exact nofun

/-- Where each step is structural, nothing is found exactly if the search comes to its end. -/
theorem answer_orNotFound_eq_notFound_iff {found : Lookup (Option α)}
    (h : Structural found.answer) :
    (orNotFound found).answer = .error .notFound ↔ found.answer = .ok none := by
  refine ⟨fun hfound => ?_, answer_orNotFound_none⟩
  cases hanswer : found.answer with
  | error e =>
      rw [answer_orNotFound_error hanswer, Except.error.injEq] at hfound
      rw [hanswer] at h
      exact absurd hfound (Structural.error_iff.mp h)
  | ok own =>
      cases own with
      | none => rfl
      | some a =>
          rw [answer_orNotFound_some hanswer] at hfound
          cases hfound

theorem answer_of_orNotFound_eq {found : Lookup (Option α)} (h : Structural found.answer)
    {a? : Option α} (hfound : (orNotFound found).answer = a?.elim (.error .notFound) .ok) :
    found.answer = .ok a? := by
  cases a? with
  | none => exact (answer_orNotFound_eq_notFound_iff h).mp hfound
  | some a => exact answer_orNotFound_eq_ok_iff.mp hfound

end Lookup

namespace Dwarf.Sections

variable (sections : Sections)

theorem structural_unitContaining (offset : Nat) :
    Structural (sections.unitContaining offset) := by
  unfold unitContaining
  dsimp only
  split
  · exact .format _
  · exact nofun
  · exact nofun

theorem structural_target (unit : CompileUnit) (reference : Value) :
    Structural (sections.target unit reference) := by
  unfold target
  split
  · exact (Structural.format _).bind fun entry => .ok _
  · refine (sections.structural_unitContaining _).bind fun unit => ?_
    dsimp only
    split
    · exact nofun
    · exact (Structural.format _).bind fun entry => .ok _
  · exact nofun

theorem structural_firstName {follow : Value → Except LookupError (Option Bytes)}
    (h : ∀ reference, Structural (follow reference)) (references : List Value) :
    Structural (firstName follow references) := by
  induction references with
  | nil => exact .ok none
  | cons reference rest ih =>
      apply (h reference).bind
      intro name?
      cases name? with
      | none => exact ih
      | some name => exact .ok _

theorem structural_nameVia {follow : Value → Except LookupError (Option Bytes)}
    (h : ∀ reference, Structural (follow reference)) (entry : Entry) :
    Structural (sections.nameVia follow entry) := by
  unfold nameVia
  split
  · exact (Structural.format _).map _
  · exact (Structural.format _).bind fun attributes => structural_firstName h _

theorem structural_referencedName (hops : Nat) (unit : CompileUnit) (reference : Value) :
    Structural (sections.referencedName hops unit reference) := by
  induction hops generalizing unit reference with
  | zero => exact nofun
  | succ hops ih =>
      apply (sections.structural_target unit reference).bind
      rintro ⟨unit, entry⟩
      exact sections.structural_nameVia (ih unit) entry

theorem structural_subprogramName (unit : CompileUnit) (subprogram : Subprogram) :
    Structural (sections.subprogramName unit subprogram) := by
  unfold subprogramName
  split
  · exact (Structural.format _).map _
  · exact structural_firstName (sections.structural_referencedName maxHops unit) _

end Dwarf.Sections

end Symbolizer
