import Symbolizer.Proofs.EntryPlaces
import Symbolizer.Proofs.ReferenceChains

/-! # Two readings of a name

The name of a function is read from the attributes that were collected when the function
was found, or directly from its entry, as for an entry that a reference leads to. The first
reading knows the last attribute of each kind and the second one stops at the first name;
where no attribute is repeated both come to the same. What is left is the number of
references that may still be followed. Fewer of them give the same outcome or the error
that there were too many, and nothing else.
-/

namespace Symbolizer

/-- The first outcome is the second one, unless too many references had to be followed. -/
def UpToLimit {α : Type} (first second : Except LookupError α) : Prop :=
  first = .error .referenceChainTooLong ∨ first = second

namespace UpToLimit

variable {α β : Type}

theorem refl (answer : Except LookupError α) : UpToLimit answer answer := Or.inr rfl

theorem bind {first second : Except LookupError α} {next next' : α → Except LookupError β}
    (h : UpToLimit first second) (hnext : ∀ a, UpToLimit (next a) (next' a)) :
    UpToLimit (first >>= next) (second >>= next') := by
  rcases h with rfl | rfl
  · exact Or.inl rfl
  · cases first with
    | error e => exact .refl _
    | ok a => exact hnext a

end UpToLimit

namespace Dwarf

/-- No two attributes of the entry have the same name. -/
def Entry.Distinct (entry : Entry) : Prop := (entry.attributes.items.map Attribute.name).Nodup

/-- Of attributes that are not repeated the last one of a name is the first. -/
theorem Attribute.last_eq_find? {attributes : List Attribute}
    (h : (attributes.map name).Nodup) (target : AttributeName) :
    last target attributes = (attributes.find? (·.name = target)).map value := by
  induction attributes with
  | nil => rfl
  | cons a rest ih =>
      obtain ⟨hfirst, hrest⟩ := List.nodup_cons.mp h
      by_cases hname : a.name = target
      · have hnone : rest.filter (·.name = target) = [] := by
          rw [List.filter_eq_nil_iff]
          intro other hother heq
          rw [decide_eq_true_iff] at heq
          exact hfirst (List.mem_map.mpr ⟨other, hother, heq.trans hname.symm⟩)
        simp [last, hname, hnone]
      · rw [← List.find?_cons_of_neg (a := a) (by simpa using hname)] at ih
        rw [← ih hrest, last, last, List.filter_cons_of_neg (by simpa using hname)]

namespace Sections

variable {sections : Sections} {unit other : CompileUnit} {entry : Entry} {subprogram : Subprogram}

section Limits

variable {follow follow' : Value → Except LookupError (Option Bytes)}
  (h : ∀ reference, UpToLimit (follow reference) (follow' reference))
include h

theorem firstName_upToLimit (references : List Value) :
    UpToLimit (firstName follow references) (firstName follow' references) := by
  induction references with
  | nil => exact .refl _
  | cons reference rest ih =>
      apply (h reference).bind
      intro name?
      cases name? with
      | none => exact ih
      | some name => exact .refl _

theorem nameVia_upToLimit (entry : Entry) :
    UpToLimit (sections.nameVia follow entry) (sections.nameVia follow' entry) := by
  unfold nameVia
  split
  · exact .refl _
  · exact (UpToLimit.refl _).bind fun attributes => firstName_upToLimit h _

end Limits

/-- With more references left to follow, a name that was found is found again, and so is any error
but the one that there were too many. -/
theorem referencedName_upToLimit {hops more : Nat} (hle : hops ≤ more) (unit : CompileUnit)
    (reference : Value) : UpToLimit (sections.referencedName hops unit reference)
      (sections.referencedName more unit reference) := by
  induction hops generalizing more unit reference with
  | zero => exact Or.inl rfl
  | succ hops ih =>
      obtain ⟨more, rfl⟩ := Nat.exists_eq_add_of_lt hle
      apply (UpToLimit.refl _).bind
      rintro ⟨unit, entry⟩
      exact nameVia_upToLimit (ih (Nat.le_add_right hops more) unit) entry

theorem referencedName_of_target {reference : Value}
    (h : sections.target other reference = .ok (unit, entry)) (hops : Nat) :
    sections.referencedName (hops + 1) other reference =
      sections.nameVia (sections.referencedName hops unit) entry := by
  rw [referencedName, h]
  rfl

/-- So many references lead from the entry to one that has a name, or neither a name nor a
reference. -/
def EndsBehind (sections : Sections) (n : Nat) (start : Place) : Prop :=
  ∃ last, sections.Walk n start last ∧ ((∃ name, sections.Names last name) ∨ last.2.Inherits [])

/-- Where the references come to an end, it does not matter how many more might be followed. -/
theorem nameVia_eq_of_endsBehind {n hops more : Nat} {start : Place}
    (h : sections.EndsBehind n start) (hn : n ≤ hops) (hmore : n ≤ more) :
    sections.nameVia (sections.referencedName hops start.1) start.2 =
      sections.nameVia (sections.referencedName more start.1) start.2 := by
  obtain ⟨last, walk, hlast⟩ := h
  obtain ⟨hops, rfl⟩ := Nat.exists_eq_add_of_le' hn
  obtain ⟨more, rfl⟩ := Nat.exists_eq_add_of_le' hmore
  rw [nameVia_of_walk walk, nameVia_of_walk walk]
  rcases hlast with ⟨name, hname⟩ | hbare
  · rw [nameVia_of_names hname, nameVia_of_names hname]
  · rw [nameVia_of_inherits hbare, nameVia_of_inherits hbare]
    rfl

/-- With a name of its own, a function is called what its entry is if that has no second one. -/
theorem subprogramName_of_name {value : Value}
    (hfunction : Subprogram.ofEntry entry = .ok (some subprogram)) (hdistinct : entry.Distinct)
    (hname : subprogram.name = some value) :
    sections.subprogramName unit subprogram = sections.entryName unit entry := by
  obtain ⟨-, rfl⟩ := Subprogram.eq_of_ofEntry hfunction
  have hfind : (entry.attributes.items.find? (·.name = .name)).map Attribute.value = some value :=
    (Attribute.last_eq_find? hdistinct .name).symm.trans hname
  obtain ⟨own, hown, rfl⟩ := Option.map_eq_some_iff.mp hfind
  rw [subprogramName, hname, entryName, nameVia, hown]

/-- Whether the name of a function is read from what was collected when the function was found, or
directly from its entry, the outcome is the same if the entry repeats no attribute, in whatever
order the attributes stand. An entry that is met in its unit is also what its offset refers to. And
whatever reference leads to the entry, the name that is read there is the name of the function,
unless too many references have to be followed; this cannot happen where they come to an end
in time. -/
theorem name_found_as_referenced (sections : Sections) {unit : CompileUnit} {entry : Entry}
    {subprogram : Subprogram} (hfunction : Subprogram.ofEntry entry = .ok (some subprogram))
    (hdistinct : entry.Distinct) :
    sections.subprogramName unit subprogram = sections.entryName unit entry ∧
    (entry ∈ unit.entries.items →
      sections.target unit (.unitReference entry.offset) = .ok (unit, entry)) ∧
    ∀ other reference hops, sections.target other reference = .ok (unit, entry) →
      hops ≤ maxHops + 1 →
      UpToLimit (sections.referencedName hops other reference)
        (sections.subprogramName unit subprogram) ∧
      ∀ n < hops, sections.EndsBehind n (unit, entry) →
        sections.referencedName hops other reference =
          sections.subprogramName unit subprogram := by
  have hsame : sections.subprogramName unit subprogram = sections.entryName unit entry := by
    cases hname : subprogram.name with
    | none => exact subprogramName_eq_entryName hfunction hname
    | some value => exact subprogramName_of_name hfunction hdistinct hname
  refine ⟨hsame, fun hmem => ?_, fun other reference hops htarget hhops => ?_⟩
  · rw [target, CompileUnit.entryAt_of_mem_entries hmem]
    rfl
  · rw [hsame]
    cases hops with
    | zero => exact ⟨Or.inl rfl, fun n hn => absurd hn n.not_lt_zero⟩
    | succ hops =>
        have hle : hops ≤ maxHops := Nat.le_of_succ_le_succ hhops
        rw [referencedName_of_target htarget]
        exact ⟨nameVia_upToLimit (referencedName_upToLimit hle unit) entry, fun n hn hends =>
          nameVia_eq_of_endsBehind hends (Nat.le_of_lt_succ hn) (by omega)⟩

/-- A function that completes another one in front of the reference to the entry that it is an
instance of. -/
def twofoldEntry : Entry :=
  ⟨12, subprogramTag,
    ⟨[⟨.specification, .unitReference 16⟩, ⟨.abstractOrigin, .unitReference 15⟩], none⟩⟩

/-- A unit with that function, the two others, of which only the completed one has a name, and a
function that completes the first. -/
def twofoldUnit : CompileUnit where
  header := ⟨0, ⟨.dwarf32, 4, .eight⟩, 0, 11, [1, 2, 16, 15, 3, 4, 0x66, 0, 5, 12]⟩
  table := [⟨1, 0x11, true, []⟩,
    ⟨2, 0x2e, false, [⟨.specification, 0x11, none⟩, ⟨.abstractOrigin, 0x11, none⟩]⟩,
    ⟨3, 0x2e, false, []⟩, ⟨4, 0x2e, false, [⟨.name, 0x08, none⟩]⟩,
    ⟨5, 0x2e, false, [⟨.specification, 0x11, none⟩]⟩]
  root := ⟨11, 0x11, .done⟩
  name := none
  lineProgram := none

/-- The instance has no name to give, so the name is that of the completed function. One reference
that may still be followed is enough to find it from another entry, and none is too few. -/
theorem twofoldUnit_readings :
    Sections.empty.subprogramName twofoldUnit twofoldEntry.subprogram = .ok (some [0x66]) ∧
    Sections.empty.entryName twofoldUnit twofoldEntry = .ok (some [0x66]) ∧
    Sections.empty.target twofoldUnit (.unitReference 12) = .ok (twofoldUnit, twofoldEntry) ∧
    Sections.empty.referencedName 1 twofoldUnit (.unitReference 12) =
      .error .referenceChainTooLong ∧
    Sections.empty.referencedName 2 twofoldUnit (.unitReference 12) = .ok (some [0x66]) := by
  have hname : Sections.empty.entryName twofoldUnit twofoldEntry = .ok (some [0x66]) := by
    decide +kernel
  have hmem : twofoldEntry ∈ twofoldUnit.entries.items := by
    have hentries : twofoldUnit.entries.items[1]? = some twofoldEntry := by decide +kernel
    exact List.mem_of_getElem? hentries
  have hone : Sections.empty.referencedName 1 twofoldUnit (.unitReference 12) =
      .error .referenceChainTooLong := by decide +kernel
  obtain ⟨hsame, hmet, hreferenced⟩ := name_found_as_referenced Sections.empty
    (rfl : Subprogram.ofEntry twofoldEntry = .ok (some twofoldEntry.subprogram))
    (by simp [Entry.Distinct, twofoldEntry])
  have htarget : Sections.empty.target twofoldUnit (.unitReference 12) =
      .ok (twofoldUnit, twofoldEntry) := hmet hmem
  have hwithin : Sections.empty.referencedName 2 twofoldUnit (.unitReference 12) =
      Sections.empty.subprogramName twofoldUnit twofoldEntry.subprogram := by
    rcases (hreferenced twofoldUnit _ 2 htarget (by decide)).1 with hlong | hfound
    · cases hlong.symm.trans (by decide +kernel :
        Sections.empty.referencedName 2 twofoldUnit (.unitReference 12) = .ok (some [0x66]))
    · exact hfound
  exact ⟨hsame.trans hname, hname, htarget, hone, hwithin.trans (hsame.trans hname)⟩

end Sections

end Dwarf

end Symbolizer
