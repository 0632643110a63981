import Symbolizer.Blueprint.Assemble
import Symbolizer.Proofs.Sequences
import Symbolizer.Symbols

/-! # Records of symbols

The table of symbols is cut into records of one size, and each record is read together
with the table of names and with no other record. So tables put one behind the other
list the symbols of both, and a record whose name cannot be read is as good as absent.
-/

namespace Symbolizer

namespace SymbolRecord

theorem decodeAll_of_length_lt {rest : Bytes} (h : rest.length < size) : decodeAll rest = [] := by
  rw [decodeAll, if_neg (Nat.not_le_of_gt h)]

theorem decodeAll_nil : decodeAll [] = [] := decodeAll_of_length_lt (by decide)

theorem decodeAll_append {bytes : Bytes} (hlength : bytes.length = size) (rest : Bytes) :
    decodeAll (bytes ++ rest) = decode bytes :: decodeAll rest := by
  rw [decodeAll, if_pos (by rw [List.length_append, hlength]; exact Nat.le_add_right _ _),
    List.take_left' hlength, List.drop_left' hlength]

/-- Behind whole records the next record starts anew. -/
theorem decodeAll_append_of_dvd {first : Bytes} (h : size ∣ first.length) (second : Bytes) :
    decodeAll (first ++ second) = decodeAll first ++ decodeAll second := by
  obtain ⟨count, hcount⟩ := h
  induction count generalizing first with
  | zero =>
      rw [List.eq_nil_of_length_eq_zero hcount, decodeAll_nil]
      rfl
  | succ count ih =>
      rw [Nat.mul_succ] at hcount
      have hown : (first.take size).length = size := by
        rw [List.length_take, hcount]
        omega
      have hrest : (first.drop size).length = size * count := by
        rw [List.length_drop, hcount]
        omega
      rw [← List.take_append_drop size first, List.append_assoc, decodeAll_append hown,
        decodeAll_append hown, ih hrest, List.cons_append]

theorem mem_decodeAll_iff {bytes : Bytes} {record : SymbolRecord} : record ∈ decodeAll bytes ↔
    ∃ position own, size ∣ position ∧ own.length = size ∧ LiesAt position own bytes ∧
      decode own = record := by
  constructor
  · intro h
    fun_induction decodeAll bytes with
    | case1 bytes hle ih =>
        have hown : (bytes.take size).length = size := List.length_take_of_le hle
        rcases List.mem_cons.mp h with rfl | hrest
        · refine ⟨0, bytes.take size, Nat.dvd_zero _, hown, ?_, rfl⟩
          exact ⟨[], bytes.drop size, (List.take_append_drop size bytes).symm, rfl⟩
        · obtain ⟨position, own, hposition, hlength, hlies, hdecode⟩ := ih hrest
          have hbehind := LiesAt.behind (bytes.take size) (bytes.drop size)
          rw [hown, List.take_append_drop] at hbehind
          exact ⟨size + position, own, Nat.dvd_add (Nat.dvd_refl _) hposition, hlength,
            hlies.trans hbehind, hdecode⟩
    | case2 bytes hlt => cases h
  · rintro ⟨_, own, hposition, hlength, ⟨before, behind, rfl, rfl⟩, rfl⟩
    rw [decodeAll_append_of_dvd hposition, decodeAll_append hlength]
    exact List.mem_append_right _ List.mem_cons_self

end SymbolRecord

namespace SymbolNames

variable {offset : Nat} {strings name : Bytes}

/-- A name is what lies at its offset in front of the first zero byte there. -/
theorem nameAt_eq_some_iff : nameAt offset (.table strings) = some name ↔
    0 ∉ name ∧ LiesAt offset (Bytes.terminated name) strings := by
  rw [nameAt, Option.map_eq_some_iff]
  constructor
  · rintro ⟨⟨_, rest⟩, hsplit, rfl⟩
    obtain ⟨hname, hdrop⟩ := Bytes.splitZero_eq_some hsplit
    have hinside : offset ≤ strings.length := by
      by_contra hout
      rw [List.drop_eq_nil_of_le (by omega)] at hsplit
      cases hsplit
    refine ⟨hname, strings.take offset, rest, ?_, (List.length_take_of_le hinside).symm⟩
    rw [Bytes.terminated, List.append_assoc, List.singleton_append, ← hdrop,
      List.take_append_drop]
  · rintro ⟨hname, hlies⟩
    obtain ⟨rest, hdrop⟩ := hlies.drop
    exact ⟨(name, rest), by rw [hdrop, Bytes.splitZero_terminated hname], rfl⟩

theorem nameAt_eq_none_iff : nameAt offset (.table strings) = none ↔ 0 ∉ strings.drop offset := by
  rw [nameAt, Option.map_eq_none_iff, Bytes.splitZero_eq_none]

end SymbolNames

theorem SymbolTable.function?_eq_some_iff {strings : Bytes} {record : SymbolRecord}
    {symbol : Symbol} : function? (.table strings) record = some symbol ↔
      record.isGlobalFunction = true ∧ record.value = symbol.value ∧ 0 ∉ symbol.name ∧
        LiesAt record.name (Bytes.terminated symbol.name) strings := by
  rw [← SymbolNames.nameAt_eq_some_iff, function?]
  obtain ⟨name, value⟩ := symbol
  cases record.isGlobalFunction <;> simp [and_comm]

/-- The image with other records of symbols. -/
def Image.withSymbols (image : Image) (symbols : Bytes) : Image := { image with symbols }

namespace Image

variable {image : Image} {strings first : Bytes}

theorem functions_append (image : Image) (h : SymbolRecord.size ∣ first.length) (second : Bytes) :
    (image.withSymbols (first ++ second)).symbolTable.functions =
      (image.withSymbols first).symbolTable.functions ++
        (image.withSymbols second).symbolTable.functions := by
  simp only [symbolTable, withSymbols, SymbolTable.functions,
    SymbolRecord.decodeAll_append_of_dvd h, List.filterMap_append]

theorem functions_nameless {own : Bytes} (hlength : own.length = SymbolRecord.size)
    (hnames : image.symbolNames = .table strings)
    (h : 0 ∉ strings.drop (SymbolRecord.decode own).name) :
    (image.withSymbols own).symbolTable.functions = [] := by
  have hname := SymbolNames.nameAt_eq_none_iff.mpr h
  have hown : SymbolRecord.decodeAll own = [SymbolRecord.decode own] := by
    have happend := SymbolRecord.decodeAll_append hlength []
    rwa [List.append_nil, SymbolRecord.decodeAll_nil] at happend
  simp [symbolTable, withSymbols, SymbolTable.functions, hown, hnames, SymbolTable.function?,
    hname]

/-- Every record counts on its own. Behind whole records those of a second part are read as if they
stood alone, and a part that is too short for a record is not read at all. A symbol is listed for
each record of a global function at whose offset a zero byte ends a name, and the name is what lies
there. A record whose offset leads out of the names or to no zero byte could as well be
missing. -/
theorem symbols_record_by_record (hnames : image.symbolNames = .table strings)
    (hfirst : SymbolRecord.size ∣ first.length) (second : Bytes) :
    (image.withSymbols (first ++ second)).symbolTable.functions =
      (image.withSymbols first).symbolTable.functions ++
        (image.withSymbols second).symbolTable.functions ∧
    (∀ name, (image.withSymbols (first ++ second)).symbolTable.find? name =
      ((image.withSymbols first).symbolTable.find? name).or
        ((image.withSymbols second).symbolTable.find? name)) ∧
    (∀ rest, rest.length < SymbolRecord.size →
      (image.withSymbols (first ++ rest)).symbolTable = (image.withSymbols first).symbolTable) ∧
    (∀ symbol, symbol ∈ image.symbolTable.functions ↔
      ∃ position own, SymbolRecord.size ∣ position ∧ own.length = SymbolRecord.size ∧
        LiesAt position own image.symbols ∧ (SymbolRecord.decode own).isGlobalFunction = true ∧
        (SymbolRecord.decode own).value = symbol.value ∧ 0 ∉ symbol.name ∧
        LiesAt (SymbolRecord.decode own).name (Bytes.terminated symbol.name) strings) ∧
    ∀ own, own.length = SymbolRecord.size →
      (strings.length ≤ (SymbolRecord.decode own).name ∨
        0 ∉ strings.drop (SymbolRecord.decode own).name) →
      (image.withSymbols (first ++ (own ++ second))).symbolTable.functions =
        (image.withSymbols (first ++ second)).symbolTable.functions := by
  have happend := functions_append image hfirst
  refine ⟨happend second, fun name => ?_, fun rest hrest => ?_, fun symbol => ?_,
    fun own hown hnameless => ?_⟩
  · rw [SymbolTable.find?, happend, List.find?_append, Option.map_or]
    rfl
  · rw [symbolTable, withSymbols, SymbolRecord.decodeAll_append_of_dvd hfirst,
      SymbolRecord.decodeAll_of_length_lt hrest, List.append_nil]
    rfl
  · simp only [symbolTable, SymbolTable.functions, List.mem_filterMap,
      SymbolRecord.mem_decodeAll_iff, hnames, SymbolTable.function?_eq_some_iff]
    constructor
    · rintro ⟨_, ⟨position, own, hposition, hlength, hlies, rfl⟩, hsymbol⟩
      exact ⟨position, own, hposition, hlength, hlies, hsymbol⟩
    · rintro ⟨position, own, hposition, hlength, hlies, hsymbol⟩
      exact ⟨_, ⟨position, own, hposition, hlength, hlies, rfl⟩, hsymbol⟩
  · have habsent : 0 ∉ strings.drop (SymbolRecord.decode own).name := by
      rcases hnameless with hout | habsent
      · rw [List.drop_eq_nil_of_le hout]
        exact List.not_mem_nil
      · exact habsent
    have hdvd : SymbolRecord.size ∣ own.length := by rw [hown]
    rw [happend, happend, functions_append image hdvd, functions_nameless hown hnames habsent,
      List.nil_append]

/-- An image whose last name has no zero byte behind it. -/
def unendedNames : Image :=
  { Image.empty with
    symbolNames := .table (0 :: (Bytes.terminated (Bytes.ofText "f") ++ Bytes.ofText "g")) }

/-- The record of a function whose name has an end. -/
def endedRecord : Bytes := (SymbolBlueprint.globalFunction (Bytes.ofText "f") 0x10).record 1

/-- The record of a function whose name has none. -/
def unendedRecord : Bytes := (SymbolBlueprint.globalFunction (Bytes.ofText "g") 0x20).record 3

/-- The record without a readable name does not hide the one behind it. -/
theorem unendedNames_symbols :
    (unendedNames.withSymbols
        (endedRecord ++ (unendedRecord ++ endedRecord))).symbolTable.functions =
      [⟨Bytes.ofText "f", 0x10⟩, ⟨Bytes.ofText "f", 0x10⟩] ∧
    (unendedNames.withSymbols (endedRecord ++ endedRecord)).symbolTable.find? (Bytes.ofText "f") =
      some 0x10 ∧
    (unendedNames.withSymbols (endedRecord ++ [1, 2, 3])).symbolTable =
      (unendedNames.withSymbols endedRecord).symbolTable := by
  have hsize : SymbolRecord.size ∣ endedRecord.length := by decide
  have hended : (unendedNames.withSymbols endedRecord).symbolTable.functions =
      [⟨Bytes.ofText "f", 0x10⟩] := by decide +kernel
  have hunended : 0 ∉ (0 :: (Bytes.terminated (Bytes.ofText "f") ++ Bytes.ofText "g")).drop
      (SymbolRecord.decode unendedRecord).name := by decide
  obtain ⟨happend, hfind, hpartial, -, hnameless⟩ :=
    symbols_record_by_record (rfl : unendedNames.symbolNames = .table _) hsize endedRecord
  refine ⟨?_, ?_, hpartial [1, 2, 3] (by decide)⟩
  · rw [hnameless unendedRecord rfl (.inr hunended), happend, hended]
    rfl
  · rw [hfind, SymbolTable.find?, hended]
    rfl

end Image

end Symbolizer
