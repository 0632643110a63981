import Symbolizer.Proofs.FunctionEntries

/-! # Chains of references

A function without a name of its own inherits one through references from entry to
entry. The walk along them ends at the first entry that has a name, or at one that has
neither a name nor a reference. It is given up where the fourth entry that it leads to
would refer on, so that cycles do no harm.
-/

namespace Symbolizer.Dwarf

/-- An entry and the unit that it is read in. -/
abbrev Place := CompileUnit × Entry

/-- The entry can be read to its end, has no name of its own, and these are the references through
which it can inherit one. -/
structure Entry.Inherits (entry : Entry) (references : List Value) : Prop where
  read : entry.attributes.fault = none
  nameless : ∀ a ∈ entry.attributes.items, a.name ≠ .name
  references_eq : Sections.inheritance entry.attributes.items = references

theorem Attribute.last_eq_none_iff {target : AttributeName} {attributes : List Attribute} :
    last target attributes = none ↔ ∀ a ∈ attributes, a.name ≠ target := by
  simp [last]

namespace Sections

section Walks

variable (sections : Sections)

/-- The entry has a name of its own that can be read. -/
def Names (place : Place) (name : Bytes) : Prop :=
  ∃ own, place.2.attributes.items.find? (·.name = .name) = some own ∧
    sections.string own.value = .ok name

/-- The only reference of an entry without a name leads to the next entry. -/
def Leads (place next : Place) : Prop :=
  ∃ reference, place.2.Inherits [reference] ∧ sections.target place.1 reference = .ok next

/-- So many references lead from one entry to another. -/
inductive Walk : Nat → Place → Place → Prop
  | stay (place : Place) : Walk 0 place place
  | hop {n : Nat} {first next last : Place} (h : sections.Leads first next)
      (rest : Walk n next last) : Walk (n + 1) first last

/-- An entry to which so many references lead has a name that can be read, or it can be read to its
end and has no name and at most one reference, which can be resolved if it is to be followed. -/
inductive Legible (n : Nat) (place : Place) : Prop
  | named {name : Bytes} (h : sections.Names place name)
  | bare (h : place.2.Inherits [])
  | refers {reference : Value} (h : place.2.Inherits [reference])
      (hfollowed : n < 4 → ∃ next, sections.target place.1 reference = .ok next)

/-- What the walk from an entry says of its name. -/
inductive NameBehind (start : Place) : Except LookupError (Option Bytes) → Prop
  | named {n : Nat} {place : Place} {name : Bytes} (hn : n ≤ 4) (walk : sections.Walk n start place)
      (h : sections.Names place name) : NameBehind start (.ok (some name))
  | bare {n : Nat} {place : Place} (hn : n ≤ 4) (walk : sections.Walk n start place)
      (h : place.2.Inherits []) : NameBehind start (.ok none)
  | cut {place : Place} {references : List Value} (walk : sections.Walk 4 start place)
      (h : place.2.Inherits references) (hrefers : references ≠ []) :
      NameBehind start (.error .referenceChainTooLong)

end Walks

variable {sections : Sections} {start place next last : Place} {n m : Nat}
  {follow : Value → Except LookupError (Option Bytes)}

namespace Walk

theorem snoc (walk : sections.Walk n start place) (h : sections.Leads place next) :
    sections.Walk (n + 1) start next := by
  induction walk with
  | stay place => exact .hop h (.stay next)
  | hop hfirst rest ih => exact .hop hfirst (ih h)

theorem append (walk : sections.Walk n start place) (further : sections.Walk m place last) :
    sections.Walk (m + n) start last := by
  induction walk with
  | stay place => exact further
  | hop hfirst rest ih => exact .hop hfirst (ih further)

/-- A longer walk passes through some place behind each number of hops. -/
theorem split (walk : sections.Walk (m + n) start last) :
    ∃ place, sections.Walk n start place ∧ sections.Walk m place last := by
  induction n generalizing start with
  | zero => exact ⟨start, .stay start, walk⟩
  | succ n ih =>
      cases walk with
      | hop hfirst rest =>
          obtain ⟨place, hfront, hback⟩ := ih rest
          exact ⟨place, .hop hfirst hfront, hback⟩

/-- Going round a cycle again makes a walk as long as one likes. -/
theorem exists_of_cycle (walk : sections.Walk n start place)
    (cycle : sections.Walk (m + 1) place place) (length : Nat) :
    ∃ last, sections.Walk length start last := by
  have hrounds : ∃ extra, sections.Walk (extra + length) start place := by
    induction length with
    | zero => exact ⟨n, walk⟩
    | succ length ih =>
        obtain ⟨extra, hround⟩ := ih
        refine ⟨extra + m, ?_⟩
        have hagain := hround.append cycle
        rwa [show m + 1 + (extra + length) = extra + m + (length + 1) by omega] at hagain
  obtain ⟨extra, hround⟩ := hrounds
  obtain ⟨last, hfront, -⟩ := hround.split
  exact ⟨last, hfront⟩

end Walk

theorem nameVia_of_names {name : Bytes} (h : sections.Names place name) :
    sections.nameVia follow place.2 = .ok (some name) := by
  obtain ⟨own, hown, hstring⟩ := h
  rw [nameVia, hown]
  dsimp only
  rw [hstring]
  rfl

theorem nameVia_of_inherits {entry : Entry} {references : List Value}
    (h : entry.Inherits references) :
    sections.nameVia follow entry = firstName follow references := by
  obtain ⟨hread, hnameless, rfl⟩ := h
  have hnone : entry.attributes.items.find? (·.name = .name) = none := by
    rw [List.find?_eq_none]
    intro a ha
    rw [decide_eq_true_iff]
    exact hnameless a ha
  rw [nameVia, hnone, Decoded.toExcept_eq_ok_iff.mpr ⟨hread, rfl⟩]
  rfl

theorem firstName_singleton (reference : Value) :
    firstName follow [reference] = follow reference := by
  rw [firstName]
  cases follow reference with
  | error e => rfl
  | ok name? => cases name? <;> rfl

/-- Following a reference takes one of the hops that are left. -/
theorem nameVia_of_leads (h : sections.Leads place next) (hops : Nat) :
    sections.nameVia (sections.referencedName (hops + 1) place.1) place.2 =
      sections.nameVia (sections.referencedName hops next.1) next.2 := by
  obtain ⟨reference, hinherits, htarget⟩ := h
  rw [nameVia_of_inherits hinherits, firstName_singleton, referencedName, htarget]
  rfl

/-- A walk takes as many of the hops that are left as it has. -/
theorem nameVia_of_walk (walk : sections.Walk n start place) (hops : Nat) :
    sections.nameVia (sections.referencedName (hops + n) start.1) start.2 =
      sections.nameVia (sections.referencedName hops place.1) place.2 := by
  induction walk with
  | stay place => rfl
  | hop hfirst rest ih => exact (nameVia_of_leads hfirst _).trans ih

theorem entryName_of_walk (hn : n ≤ 4) (walk : sections.Walk n start place) :
    sections.entryName start.1 start.2 =
      sections.nameVia (sections.referencedName (4 - n) place.1) place.2 := by
  have hall := nameVia_of_walk walk (4 - n)
  rwa [Nat.sub_add_cancel hn] at hall

/-- Where no hop is left, the first reference is one too many. -/
theorem nameVia_exhausted {references : List Value} (h : place.2.Inherits references)
    (hrefers : references ≠ []) :
    sections.nameVia (sections.referencedName 0 place.1) place.2 =
      .error .referenceChainTooLong := by
  obtain ⟨reference, rest, rfl⟩ := List.exists_cons_of_ne_nil hrefers
  rw [nameVia_of_inherits h]
  rfl

theorem entryName_of_nameBehind {result : Except LookupError (Option Bytes)}
    (h : sections.NameBehind start result) :
    sections.entryName start.1 start.2 = result := by
  cases h with
  | named hn walk h => rw [entryName_of_walk hn walk, nameVia_of_names h]
  | bare hn walk h =>
      rw [entryName_of_walk hn walk, nameVia_of_inherits h]
      rfl
  | cut walk h hrefers => rw [entryName_of_walk (le_refl 4) walk, nameVia_exhausted h hrefers]

/-- A walk into a cycle is longer than four hops. -/
theorem nameBehind_of_cycle (walk : sections.Walk n start place)
    (cycle : sections.Walk (m + 1) place place) :
    sections.NameBehind start (.error .referenceChainTooLong) := by
  obtain ⟨last, hlong⟩ := walk.exists_of_cycle cycle 5
  obtain ⟨fourth, hfour, hback⟩ := Walk.split (n := 4) (m := 1) hlong
  cases hback with
  | hop hlead _ =>
      obtain ⟨reference, hinherits, -⟩ := hlead
      exact .cut hfour hinherits (List.cons_ne_nil _ _)

/-- A walk over legible entries comes to an end or goes on for another hop. -/
theorem exists_nameBehind_or_walk
    (h : ∀ n place, n ≤ 4 → sections.Walk n start place → sections.Legible n place)
    (hn : n ≤ 4) :
    (∃ result, sections.NameBehind start result) ∨ ∃ place, sections.Walk n start place := by
  induction n with
  | zero => exact .inr ⟨start, .stay start⟩
  | succ n ih =>
      rcases ih (by omega) with hend | ⟨place, walk⟩
      · exact .inl hend
      · cases h n place (by omega) walk with
        | named hname => exact .inl ⟨_, .named (by omega) walk hname⟩
        | bare hbare => exact .inl ⟨_, .bare (by omega) walk hbare⟩
        | refers hinherits hfollowed =>
            obtain ⟨next, htarget⟩ := hfollowed (by omega)
            exact .inr ⟨next, walk.snoc ⟨_, hinherits, htarget⟩⟩

theorem exists_nameBehind
    (h : ∀ n place, n ≤ 4 → sections.Walk n start place → sections.Legible n place) :
    ∃ result, sections.NameBehind start result := by
  rcases exists_nameBehind_or_walk h (le_refl 4) with hend | ⟨place, walk⟩
  · exact hend
  · cases h 4 place (le_refl 4) walk with
    | named hname => exact ⟨_, .named (le_refl 4) walk hname⟩
    | bare hbare => exact ⟨_, .bare (le_refl 4) walk hbare⟩
    | refers hinherits => exact ⟨_, .cut walk hinherits (List.cons_ne_nil _ _)⟩

/-- Without a name of its own, a function is called what its entry is. -/
theorem subprogramName_eq_entryName {unit : CompileUnit} {entry : Entry} {subprogram : Subprogram}
    (hfunction : Subprogram.ofEntry entry = .ok (some subprogram))
    (hnameless : subprogram.name = none) :
    sections.subprogramName unit subprogram = sections.entryName unit entry := by
  obtain ⟨hread, rfl⟩ := Subprogram.eq_of_ofEntry hfunction
  have hinherits : entry.Inherits (inheritance entry.attributes.items) :=
    ⟨hread, Attribute.last_eq_none_iff.mp hnameless, rfl⟩
  rw [subprogramName, hnameless, entryName, nameVia_of_inherits hinherits]
  rfl

/-- The name of a function without one of its own is that of the first entry with a name, if at
most four references lead there. If they lead to an entry with neither, there is no name. From the
fourth entry no reference is followed, so every cycle is given up. Where all entries on the
way are legible, nothing else can happen. -/
theorem subprogramName_along_references (sections : Sections) {unit : CompileUnit} {entry : Entry}
    {subprogram : Subprogram} (hfunction : Subprogram.ofEntry entry = .ok (some subprogram))
    (hnameless : subprogram.name = none) :
    (∀ result, sections.NameBehind (unit, entry) result →
      sections.subprogramName unit subprogram = result) ∧
    (∀ n length place, sections.Walk n (unit, entry) place →
      sections.Walk (length + 1) place place →
      sections.subprogramName unit subprogram = .error .referenceChainTooLong) ∧
    ((∀ n place, n ≤ 4 → sections.Walk n (unit, entry) place → sections.Legible n place) →
      sections.NameBehind (unit, entry) (sections.subprogramName unit subprogram)) := by
  rw [subprogramName_eq_entryName hfunction hnameless]
  refine ⟨fun result h => entryName_of_nameBehind h,
    fun n length place walk cycle => entryName_of_nameBehind (nameBehind_of_cycle walk cycle),
    fun hlegible => ?_⟩
  obtain ⟨result, h⟩ := exists_nameBehind hlegible
  rwa [show sections.entryName unit entry = result from entryName_of_nameBehind h]

/-- An entry without a name that completes another one. -/
def completion (offset other : Nat) : Entry :=
  ⟨offset, subprogramTag, ⟨[⟨.specification, .unitReference other⟩], none⟩⟩

def namedEntry : Entry := ⟨20, subprogramTag, ⟨[⟨.name, .string [0x66]⟩], none⟩⟩

/-- An entry with neither a name nor a reference. -/
def bareEntry : Entry := ⟨25, subprogramTag, .done⟩

/-- An instance of that entry, with a reference that counts from the start of the section. -/
def bareInstance : Entry :=
  ⟨26, subprogramTag, ⟨[⟨.abstractOrigin, .sectionReference 25⟩], none⟩⟩

/-- A unit of functions that inherit their names from each other. -/
def chainedUnit : CompileUnit where
  header := ⟨0, ⟨.dwarf32, 4, .eight⟩, 0, 11,
    [1, 2, 14, 2, 16, 2, 18, 2, 20, 3, 0x66, 0, 2, 12, 4, 5, 25, 0, 0, 0, 2, 31]⟩
  table := [⟨1, 0x11, true, []⟩, ⟨2, 0x2e, false, [⟨.specification, 0x11, none⟩]⟩,
    ⟨3, 0x2e, false, [⟨.name, 0x08, none⟩]⟩, ⟨4, 0x2e, false, []⟩,
    ⟨5, 0x2e, false, [⟨.abstractOrigin, 0x10, none⟩]⟩]
  root := ⟨11, 0x11, .done⟩
  name := none
  lineProgram := none

def chained : Sections :=
  { Sections.empty with
    abbreviations := [1, 0x11, 1, 0, 0, 2, 0x2e, 0, 0x47, 0x11, 0, 0, 3, 0x2e, 0, 0x03, 0x08, 0, 0,
      4, 0x2e, 0, 0, 0, 5, 0x2e, 0, 0x31, 0x10, 0, 0, 0]
    info := Bytes.sized ([4, 0, 0, 0, 0, 0, 8] ++ chainedUnit.header.entries) }

theorem completion_inherits (offset other : Nat) :
    (completion offset other).Inherits [.unitReference other] :=
  ⟨rfl, by simp [completion], rfl⟩

theorem chained_leads (offset other : Nat) (entry : Entry)
    (h : chainedUnit.entryAt other = .ok entry) :
    chained.Leads (chainedUnit, completion offset other) (chainedUnit, entry) := by
  refine ⟨_, completion_inherits offset other, ?_⟩
  rw [target, h]
  rfl

/-- Four references lead to the name that ends the chain, and five are too many, as is one that
leads back to its own entry. An instance of an entry without a name has none. -/
theorem chainedUnit_subprogramName :
    chained.unitAt 0 = .ok chainedUnit ∧
    chained.subprogramName chainedUnit (completion 12 14).subprogram = .ok (some [0x66]) ∧
    chained.subprogramName chainedUnit (completion 23 12).subprogram =
      .error .referenceChainTooLong ∧
    chained.subprogramName chainedUnit (completion 31 31).subprogram =
      .error .referenceChainTooLong ∧
    chained.subprogramName chainedUnit bareInstance.subprogram = .ok none ∧
    chained.NameBehind (chainedUnit, bareInstance)
      (chained.subprogramName chainedUnit bareInstance.subprogram) := by
  have walk : chained.Walk 3 (chainedUnit, completion 12 14) (chainedUnit, completion 18 20) :=
    .hop (chained_leads 12 14 (completion 14 16) (by decide +kernel))
      (.hop (chained_leads 14 16 (completion 16 18) (by decide +kernel))
        (.hop (chained_leads 16 18 (completion 18 20) (by decide +kernel)) (.stay _)))
  have hnamed : chained.Leads (chainedUnit, completion 18 20) (chainedUnit, namedEntry) :=
    chained_leads 18 20 namedEntry (by decide +kernel)
  have hcycle : chained.Leads (chainedUnit, completion 31 31) (chainedUnit, completion 31 31) :=
    chained_leads 31 31 (completion 31 31) (by decide +kernel)
  have hinstance : bareInstance.Inherits [.sectionReference 25] :=
    ⟨rfl, by simp [bareInstance], rfl⟩
  have hbare : bareEntry.Inherits [] := ⟨rfl, by simp [bareEntry, Decoded.done], rfl⟩
  have htarget : chained.target chainedUnit (.sectionReference 25) =
      .ok (chainedUnit, bareEntry) := by decide +kernel
  -- Of the instance, all that a walk can come to is itself and the entry without a name.
  have hlegible (n : Nat) (place : Place) (_ : n ≤ 4)
      (walk : chained.Walk n (chainedUnit, bareInstance) place) : chained.Legible n place := by
    cases walk with
    | stay => exact .refers hinstance fun _ => ⟨_, htarget⟩
    | hop h rest =>
        obtain ⟨reference, hrefers, hnext⟩ := h
        cases hrefers.references_eq.symm.trans hinstance.references_eq
        cases hnext.symm.trans htarget
        cases rest with
        | stay => exact .bare hbare
        | hop h _ =>
            obtain ⟨_, hrefers, _⟩ := h
            cases hrefers.references_eq.symm.trans hbare.references_eq
  have hfunction : Subprogram.ofEntry bareInstance = .ok (some bareInstance.subprogram) := rfl
  obtain ⟨houtcome, -, hall⟩ := subprogramName_along_references chained hfunction rfl
  refine ⟨by decide +kernel, ?_, ?_, ?_, houtcome _ ?_, hall hlegible⟩
  · exact (subprogramName_along_references chained rfl rfl).1 _
      (.named (le_refl 4) (walk.snoc hnamed) ⟨⟨.name, .string [0x66]⟩, rfl, rfl⟩)
  · exact (subprogramName_along_references chained rfl rfl).1 _ (.cut
      (.hop (chained_leads 23 12 (completion 12 14) (by decide +kernel)) walk)
      (completion_inherits 18 20) (by simp))
  · exact (subprogramName_along_references chained rfl rfl).2.1 0 0 _ (.stay _)
      (.hop hcycle (.stay _))
  · exact .bare (by decide) (.hop ⟨_, hinstance, htarget⟩ (.stay _)) hbare

end Sections

end Symbolizer.Dwarf
