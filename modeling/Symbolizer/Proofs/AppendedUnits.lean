import Symbolizer.Proofs.Blueprint.Placement
import Symbolizer.Proofs.FunctionSearch
import Symbolizer.Proofs.LocalReading
import Symbolizer.Proofs.RecordedAddresses
import Symbolizer.Proofs.UnitPlaces

/-! # Units put behind all others

A unit states its own length, so bytes behind all units, whatever they are, become no
part of any of them. A lookup may fail to find its answer where there are no more units,
and with more it may succeed. But once it has an answer it keeps it: each step on the way
to an answer succeeds with the same value.
-/

namespace Except

variable {ε ε' α β : Type}

/-- The second outcome is that of the first where that is a success. -/
def Persists (first second : Except ε α) : Prop := ∀ a, first = ok a → second = ok a

namespace Persists

theorem refl (answer : Except ε α) : Persists answer answer := fun _ h => h

theorem error (e : ε) (second : Except ε α) : Persists (.error e) second := nofun

theorem bind {first second : Except ε α} {next next' : α → Except ε β} (h : Persists first second)
    (hnext : ∀ a, Persists (next a) (next' a)) : Persists (first >>= next) (second >>= next') := by
  intro b hb
  obtain ⟨a, hfirst, hb⟩ := bind_eq_ok_iff.mp hb
  exact bind_eq_ok_iff.mpr ⟨a, h a hfirst, hnext a b hb⟩

theorem mapError {first second : Except ε α} (h : Persists first second) (f : ε → ε') :
    Persists (first.mapError f) (second.mapError f) := by
  intro a ha
  exact mapError_eq_ok_iff.mpr (h a (mapError_eq_ok_iff.mp ha))

end Persists

end Except

namespace Symbolizer

open Except (Persists)

namespace Dwarf.Decoded

variable {α β : Type}

/-- Items put in place of the first ones do not depend on what follows those. -/
theorem flatMap_items_append {xs ys : Decoded α} (h : xs.items <+: ys.items) (f : α → Decoded β) :
    (xs.flatMap f).items <+: (ys.flatMap f).items := by
  obtain ⟨items, fault⟩ := xs
  obtain ⟨more, hmore⟩ := h
  obtain ⟨_, fault'⟩ := ys
  cases hmore
  change (flatMapItems f fault items).items <+: (flatMapItems f fault' (items ++ more)).items
  induction items with
  | nil => exact List.nil_prefix
  | cons a items ih =>
      rw [List.cons_append, flatMapItems, flatMapItems, append, append]
      cases (f a).fault with
      | some e => exact List.prefix_refl _
      | none => exact (List.prefix_append_right_inj _).mpr ih

end Dwarf.Decoded

namespace Lookup

variable {α β : Type}

theorem persists_bind {first second : Lookup α} {next next' : α → Lookup β}
    (h : Persists first.answer second.answer)
    (hnext : ∀ a, Persists (next a).answer (next' a).answer) :
    Persists (first >>= next).answer (second >>= next').answer := by
  rw [answer_bind, answer_bind]
  exact h.bind hnext

theorem persists_decode {first second : Except Dwarf.DecodeError α} (h : Persists first second) :
    Persists (decode first).answer (decode second).answer :=
  h.mapError LookupError.format

section Searches

variable {f g : α → Lookup (Option β)} (h : ∀ a, Persists (f a).answer (g a).answer)
include h

theorem persists_firstOf (items : List α) :
    Persists (firstOf f items).answer (firstOf g items).answer := by
  induction items with
  | nil => exact .refl _
  | cons a items ih =>
      apply persists_bind (h a)
      intro own
      cases own with
      | none => exact ih
      | some b => exact .refl _

theorem persists_search (xs : Dwarf.Decoded α) :
    Persists (search xs f).answer (search xs g).answer := by
  apply persists_bind (persists_firstOf h xs.items)
  intro own
  exact .refl _

/-- What is found is found again among more items, as long as these come last. -/
theorem persists_orNotFound_search {xs ys : Dwarf.Decoded α} (hitems : xs.items <+: ys.items) :
    Persists (orNotFound (search xs f)).answer (orNotFound (search ys g)).answer := by
  intro b hb
  rw [answer_orNotFound_eq_ok_iff, answer_search_eq_some_iff] at hb ⊢
  obtain ⟨more, hmore⟩ := hitems
  have hfound := persists_firstOf h xs.items _ hb
  rw [← hmore, answer_firstOf_append_of_ok hfound]
  rfl

end Searches

end Lookup

namespace Dwarf

theorem UnitHeader.steady_read : Decoded.Steady fun offset => some <$> read offset :=
  Decoded.steady_sized _

theorem UnitHeader.readAll_items_append (info more : Bytes) :
    (readAll info).items <+: (readAll (info ++ more)).items :=
  steady_read.items_append 0 info more

theorem UnitHeader.persists_readAt (info more : Bytes) (offset : Nat) :
    Persists (readAt info offset) (readAt (info ++ more) offset) := by
  intro header h
  rw [readAt] at h ⊢
  split at h
  · cases h
  · rename_i hinside
    obtain ⟨⟨_, rest⟩, hread, rfl⟩ := Except.map_eq_ok_iff.mp h
    rw [if_neg (by rw [List.length_append]; omega),
      List.drop_append_of_le_length (Nat.not_lt.mp hinside)]
    exact Except.map_eq_ok_iff.mpr ⟨_, (local_read offset).read_append hread more, rfl⟩

namespace Sections

/-- The same sections with more bytes behind all units. -/
def appended (sections : Sections) (more : Bytes) : Sections :=
  { sections with info := sections.info ++ more }

variable (sections : Sections) (more : Bytes)

theorem persists_unitAt (offset : Nat) :
    Persists (sections.unitAt offset) ((sections.appended more).unitAt offset) :=
  (UnitHeader.persists_readAt sections.info more offset).bind fun _ => .refl _

theorem units_items_append : sections.units.items <+: (sections.appended more).units.items :=
  Decoded.flatMap_items_append (UnitHeader.readAll_items_append sections.info more) _

theorem persists_unitContaining (offset : Nat) :
    Persists (sections.unitContaining offset) ((sections.appended more).unitContaining offset) := by
  intro unit h
  obtain ⟨behind, hbehind⟩ := UnitHeader.readAll_items_append sections.info more
  unfold unitContaining at h ⊢
  dsimp only at h ⊢
  split at h
  next header hfind =>
    rw [appended, ← hbehind, List.find?_append, hfind]
    exact h
  next => cases h
  next => cases h

theorem persists_target (unit : CompileUnit) (reference : Value) :
    Persists (sections.target unit reference) ((sections.appended more).target unit reference) := by
  cases reference with
  | unitReference offset => exact .refl _
  | sectionReference offset =>
      exact (sections.persists_unitContaining more offset).bind fun unit => .refl _
  | _ => exact .error _ _

theorem persists_firstName {follow follow' : Value → Except LookupError (Option Bytes)}
    (h : ∀ reference, Persists (follow reference) (follow' reference)) (references : List Value) :
    Persists (firstName follow references) (firstName follow' references) := by
  induction references with
  | nil => exact .refl _
  | cons reference rest ih =>
      apply (h reference).bind
      intro name?
      cases name? with
      | none => exact ih
      | some name => exact .refl _

theorem persists_nameVia {follow follow' : Value → Except LookupError (Option Bytes)}
    (h : ∀ reference, Persists (follow reference) (follow' reference)) (entry : Entry) :
    Persists (sections.nameVia follow entry) ((sections.appended more).nameVia follow' entry) := by
  unfold nameVia
  split
  · exact .refl _
  · exact (Persists.refl _).bind fun attributes => persists_firstName h _

/-- A chain of references that leads to a name leads to it however many units follow. -/
theorem persists_referencedName (hops : Nat) (unit : CompileUnit) (reference : Value) :
    Persists (sections.referencedName hops unit reference)
      ((sections.appended more).referencedName hops unit reference) := by
  induction hops generalizing unit reference with
  | zero => exact .error _ _
  | succ hops ih =>
      apply (sections.persists_target more unit reference).bind
      rintro ⟨unit, entry⟩
      exact sections.persists_nameVia more (ih unit) entry

theorem persists_subprogramName (unit : CompileUnit) (subprogram : Subprogram) :
    Persists (sections.subprogramName unit subprogram)
      ((sections.appended more).subprogramName unit subprogram) := by
  unfold subprogramName
  split
  · exact .refl _
  · exact persists_firstName (sections.persists_referencedName more maxHops unit) _

theorem persists_functionStep (address : Address) (unit : CompileUnit) (subprogram : Subprogram) :
    Persists (sections.functionStep address unit subprogram).answer
      ((sections.appended more).functionStep address unit subprogram).answer := by
  apply Lookup.persists_bind (.refl _)
  intro range?
  cases range? with
  | none => exact .refl _
  | some range =>
      exact Lookup.persists_bind (sections.persists_subprogramName more unit subprogram)
        fun name? => .refl _

theorem persists_entryStep (name : Bytes) (unit : CompileUnit) (subprogram : Subprogram) :
    Persists (sections.entryStep name unit subprogram).answer
      ((sections.appended more).entryStep name unit subprogram).answer :=
  Lookup.persists_bind (sections.persists_subprogramName more unit subprogram) fun _ => .refl _

theorem persists_indexStep (name : Bytes) (indexed : IndexedName) :
    Persists (sections.indexStep name indexed).answer
      ((sections.appended more).indexStep name indexed).answer := by
  unfold indexStep
  split
  · exact .refl _
  · exact Lookup.persists_bind (Lookup.persists_decode (sections.persists_unitAt more _))
      fun unit => .refl _

/-- What a lookup answers, it answers as well with more bytes behind all units: the unit of an
address, the file of a unit, the function around an address, and the address of a name by the index
and by the scan of all entries. -/
theorem answers_persist :
    (∀ address unit, (sections.unitForAddress address).answer = .ok unit →
      ((sections.appended more).unitForAddress address).answer = .ok unit) ∧
    (∀ offset file, (sections.fileForUnit offset).answer = .ok file →
      ((sections.appended more).fileForUnit offset).answer = .ok file) ∧
    (∀ address offset function,
      (sections.functionForAddress address offset).answer = .ok function →
      ((sections.appended more).functionForAddress address offset).answer = .ok function) ∧
    (∀ name address, (sections.addressByIndex name).answer = .ok address →
      ((sections.appended more).addressByIndex name).answer = .ok address) ∧
    ∀ name address, (sections.addressByScan name).answer = .ok address →
      ((sections.appended more).addressByScan name).answer = .ok address := by
  refine ⟨fun address => ?_, fun offset => ?_, fun address offset => ?_, fun name => ?_,
    fun name => ?_⟩
  · apply Lookup.persists_bind (.refl _)
    intro indexed
    cases indexed with
    | some unit => exact .refl _
    | none =>
        exact Lookup.persists_bind (.refl _) fun _ =>
          Lookup.persists_orNotFound_search (fun unit => .refl _) (sections.units_items_append more)
  · exact Lookup.persists_bind (Lookup.persists_decode (sections.persists_unitAt more offset))
      fun unit => .refl _
  · exact Lookup.persists_bind (Lookup.persists_decode (sections.persists_unitAt more offset))
      fun unit => Lookup.persists_orNotFound_search
        (sections.persists_functionStep more address unit) (List.prefix_refl _)
  · exact Lookup.persists_orNotFound_search (sections.persists_indexStep more name)
      (List.prefix_refl _)
  · exact Lookup.persists_orNotFound_search
      (fun unit => Lookup.persists_search (sections.persists_entryStep more name unit) _)
      (sections.units_items_append more)

/-- A unit without indexed addresses, of a function that is declared apart from its code. -/
def declaredWork : Sections := Blueprint.sections {
  units := [⟨Bytes.ofText "a",
    [⟨Bytes.ofText "work", 0x100, 16, [], true, .separatelyDeclared⟩], []⟩]
  symbols := []
  addressIndex := false
  danglingNames := [] }

/-- Two bytes that are no unit change no answer about the one in front of them. -/
theorem declaredWork_persists :
    ((declaredWork.appended [0xff, 0xff]).unitForAddress 0x108).answer = .ok 0 ∧
    ((declaredWork.appended [0xff, 0xff]).fileForUnit 0).answer = .ok ⟨Bytes.ofText "a", 0⟩ ∧
    ((declaredWork.appended [0xff, 0xff]).functionForAddress 0x108 0).answer =
      .ok ⟨Bytes.ofText "work", 0x100⟩ ∧
    ((declaredWork.appended [0xff, 0xff]).addressByIndex (Bytes.ofText "work")).answer =
      .ok 0x100 ∧
    ((declaredWork.appended [0xff, 0xff]).addressByScan (Bytes.ofText "work")).answer =
      .ok 0x100 := by
  obtain ⟨hunit, hfile, hfunction, hindex, hscan⟩ := answers_persist declaredWork [0xff, 0xff]
  refine ⟨hunit _ _ ?_, hfile _ _ ?_, hfunction _ _ _ ?_, hindex _ _ ?_, hscan _ _ ?_⟩
  · decide +kernel
  · decide +kernel
  · decide +kernel
  · decide +kernel
  · decide +kernel

end Sections

end Dwarf

end Symbolizer
