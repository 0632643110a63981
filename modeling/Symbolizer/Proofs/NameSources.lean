import Symbolizer.Proofs.Asking

/-! # The sources of a name

A name is asked of the index, of the debug entries and of the symbol table. A source that
does not know the name leads on to the next; any other error of the index or the entries
means that they are corrupt, and is the end. What comes behind the source that decides
has no part in the outcome.
-/

namespace Symbolizer

/-- The first record that stands for a global function of a name. -/
def SymbolTable.record? (table : SymbolTable) (name : Bytes) : Option SymbolRecord :=
  table.records.find? fun record =>
    record.isGlobalFunction && table.names.nameAt record.name = some name

/-- Records of other kinds, and those whose name cannot be read, have no part in a search. -/
theorem SymbolTable.find?_eq_record? (table : SymbolTable) (name : Bytes) :
    table.find? name = (table.record? name).map SymbolRecord.value := by
  have hstep (record : SymbolRecord) :
      (function? table.names record).any (fun symbol => symbol.name = name) =
        (record.isGlobalFunction && table.names.nameAt record.name = some name) := by
    cases hglobal : record.isGlobalFunction with
    | false => simp [function?, hglobal]
    | true => cases hname : table.names.nameAt record.name <;> simp [function?, hglobal, hname]
  rw [find?, functions, List.find?_filterMap, record?]
  simp only [hstep]
  cases hfound : table.records.find? fun record =>
      record.isGlobalFunction && table.names.nameAt record.name = some name with
  | none => rfl
  | some record =>
      have hmatch := List.find?_some hfound
      simp only [Bool.and_eq_true, decide_eq_true_eq] at hmatch
      rw [Option.bind_some, function?, if_pos hmatch.1, hmatch.2]
      rfl

namespace Engine

variable {engine other : Engine} {symbols symbols' : SymbolTable} {name : Bytes}

/-- Only an error that does not mean absence is fatal, and only from a source that is asked. -/
theorem named_eq_error_iff {cause : Fatal} : engine.named symbols name = .error cause ↔
    ∃ error, error ≠ .notFound ∧
      ((engine.addressByIndex name).answer = .error error ∧ cause = .malformedIndex error ∨
        (engine.addressByIndex name).answer = .error .notFound ∧
          (engine.addressByScan name).answer = .error error ∧ cause = .malformedEntries error) := by
  rw [named]
  split
  next => grind
  next => split <;> grind
  next => grind

theorem named_eq_ok_iff {address : Address} : engine.named symbols name = .ok address ↔
    (engine.addressByIndex name).answer = .ok address ∨
      (engine.addressByIndex name).answer = .error .notFound ∧
        ((engine.addressByScan name).answer = .ok address ∨
          (engine.addressByScan name).answer = .error .notFound ∧
            address = (symbols.find? name).getD 0) := by
  rw [named]
  split
  next => grind
  next => split <;> grind
  next => grind

/-- What comes behind the source that decides has no part in the outcome. -/
theorem named_congr
    (hindex : (other.addressByIndex name).answer = (engine.addressByIndex name).answer)
    (hscan : (engine.addressByIndex name).answer = .error .notFound →
      (other.addressByScan name).answer = (engine.addressByScan name).answer ∧
        ((engine.addressByScan name).answer = .error .notFound →
          symbols'.find? name = symbols.find? name)) :
    other.named symbols' name = engine.named symbols name := by
  rw [named, named, hindex]
  split
  next => rfl
  next h =>
    obtain ⟨hsame, hsymbols⟩ := hscan h
    rw [hsame]
    split
    next => rfl
    next h => rw [hsymbols h]
    next => rfl
  next => rfl

/-- A name is resolved to the address in the first source that knows it, be it the index, the debug
entries or the symbol table, and to zero if none does. Corrupt data is fatal where it is met. The
entries are asked where the index does not know the name, and nothing is asked twice. -/
theorem resolveName_consults_in_turn (engine : Engine) (symbols : SymbolTable) (name : Bytes) :
    (∀ text,
      (∃ cause, (engine.resolveName symbols name).start.1 = .error cause ∧ cause.message = text) ↔
        ∃ error, error ≠ .notFound ∧
          ((engine.addressByIndex name).answer = .error error ∧
              text = "name index is malformed: " ++ error.message ∨
            (engine.addressByIndex name).answer = .error .notFound ∧
              (engine.addressByScan name).answer = .error error ∧
              text = "debug entry tree is malformed: " ++ error.message)) ∧
    (∀ address, (engine.resolveName symbols name).start.1 = .ok address ↔
      (engine.addressByIndex name).answer = .ok address ∨
        (engine.addressByIndex name).answer = .error .notFound ∧
          ((engine.addressByScan name).answer = .ok address ∨
            (engine.addressByScan name).answer = .error .notFound ∧
              address = ((symbols.record? name).map SymbolRecord.value).getD 0)) ∧
    ((engine.addressByIndex name).answer = .error .notFound →
      (engine.resolveName symbols name).start.2.calls = [.index name, .scan name]) ∧
    ((engine.addressByIndex name).answer ≠ .error .notFound →
      (engine.resolveName symbols name).start.2.calls = [.index name]) ∧
    ∀ (other : Engine) (symbols' : SymbolTable),
      (other.addressByIndex name).answer = (engine.addressByIndex name).answer →
      ((engine.addressByIndex name).answer = .error .notFound →
        (other.addressByScan name).answer = (engine.addressByScan name).answer ∧
          ((engine.addressByScan name).answer = .error .notFound →
            symbols'.find? name = symbols.find? name)) →
      (other.resolveName symbols' name).start.1 = (engine.resolveName symbols name).start.1 := by
  have hresult (engine : Engine) (symbols : SymbolTable) :
      (engine.resolveName symbols name).start.1 = engine.named symbols name :=
    (engine.resolveName_yields_named symbols name).start
  refine ⟨fun text => ?_, fun address => ?_, fun h => (resolveName_asks_scan h symbols).start,
    fun h => (resolveName_asks_index h symbols).start, fun other symbols' hindex hscan => ?_⟩
  · rw [hresult]
    simp only [named_eq_error_iff]
    constructor
    · rintro ⟨cause, ⟨error, hne, ⟨hindex, rfl⟩ | ⟨hindex, hscan, rfl⟩⟩, rfl⟩
      · exact ⟨error, hne, Or.inl ⟨hindex, rfl⟩⟩
      · exact ⟨error, hne, Or.inr ⟨hindex, hscan, rfl⟩⟩
    · rintro ⟨error, hne, ⟨hindex, rfl⟩ | ⟨hindex, hscan, rfl⟩⟩
      · exact ⟨_, ⟨error, hne, Or.inl ⟨hindex, rfl⟩⟩, rfl⟩
      · exact ⟨_, ⟨error, hne, Or.inr ⟨hindex, hscan, rfl⟩⟩, rfl⟩
  · rw [hresult, named_eq_ok_iff, SymbolTable.find?_eq_record?]
  · rw [hresult, hresult]
    exact named_congr hindex hscan

/-- An engine that indexes nothing and whose entries are corrupt. -/
def corruptEntries : Engine where
  unitForAddress _ := Lookup.fail .notFound
  fileForUnit _ := Lookup.fail .notFound
  lineForAddress _ _ := Lookup.fail .notFound
  functionForAddress _ _ := Lookup.fail .notFound
  addressByIndex _ := Lookup.fail .notFound
  addressByScan _ := Lookup.fail .missingLineProgram

/-- A symbol does not help where the entries are corrupt. -/
theorem corruptEntries_resolveName : ∃ cause,
    (corruptEntries.resolveName
      ⟨[⟨0, 1, 2, 0x100⟩], .table (Bytes.terminated (Bytes.ofText "init"))⟩
      (Bytes.ofText "init")).start.1 = .error cause ∧
    cause.message = "debug entry tree is malformed: Unit has no line-number program" :=
  ((resolveName_consults_in_turn _ _ _).1 _).mpr
    ⟨.missingLineProgram, by decide, Or.inr ⟨rfl, rfl, rfl⟩⟩

end Engine

end Symbolizer
