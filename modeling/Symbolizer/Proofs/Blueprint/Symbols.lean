import Symbolizer.Proofs.Blueprint.Placement
import Symbolizer.Proofs.Searches
import Symbolizer.Proofs.SymbolRecords

/-! # Symbol tables of blueprints

Each symbol is read back from its record and from the name that it refers to, which a
zero byte may end early. The reserved record stands for no symbol.
-/

namespace Symbolizer

/-- A text is read up to its first zero byte. -/
theorem Bytes.map_fst_splitZero_terminated (text rest : Bytes) :
    (splitZero (terminated text ++ rest)).map Prod.fst = some (text.takeWhile (· ≠ 0)) := by
  induction text with
  | nil => rfl
  | cons byte text ih =>
      change (splitZero (byte :: (terminated text ++ rest))).map Prod.fst = _
      rw [splitZero, List.takeWhile_cons]
      by_cases hzero : byte = 0
      · rw [if_pos hzero, if_neg (by simp [hzero])]
        rfl
      · rw [if_neg hzero, if_pos (by simp [hzero]), Option.map_map]
        obtain ⟨found, hfound, heq⟩ := Option.map_eq_some_iff.mp ih
        rw [hfound, Option.map_some, ← heq]
        rfl

namespace SymbolBlueprint

variable (symbol : SymbolBlueprint)

/-- Binding and kind are read back as far as they fit. -/
theorem toNat_info :
    symbol.info.toNat = 16 * (symbol.binding.toNat % 16) + symbol.kind.toNat % 16 := by
  have hbinding : symbol.binding.toNat <<< ((4 : UInt8).toNat % 8) % 2 ^ 8 =
      2 ^ 4 * (symbol.binding.toNat % 16) := by
    change symbol.binding.toNat <<< 4 % 2 ^ 8 = _
    rw [Nat.shiftLeft_eq]
    omega
  have hkind : symbol.kind.toNat &&& (0xf : UInt8).toNat = symbol.kind.toNat % 2 ^ 4 :=
    Nat.and_two_pow_sub_one_eq_mod _ 4
  rw [info, UInt8.toNat_or, UInt8.toNat_shiftLeft, UInt8.toNat_and, hbinding, hkind,
    ← Nat.two_pow_add_eq_or_of_lt (Nat.mod_lt _ (by decide))]

theorem length_record (name : Nat) : (symbol.record name).length = SymbolRecord.size := by
  simp only [record, List.length_append, Bytes.ofNat_length]
  rfl

theorem decode_record {name : Nat} (hname : name < 2 ^ 32) :
    SymbolRecord.decode (symbol.record name) =
      ⟨name, symbol.binding.toNat % 16, symbol.kind.toNat % 16, symbol.value⟩ := by
  have hinfo := symbol.toNat_info
  have hfront : symbol.record name = Bytes.ofNat 4 name ++ ([symbol.info] ++ ([0] ++
      (Bytes.ofNat 2 1 ++ (Bytes.ofNat 8 symbol.value.toNat ++ Bytes.ofNat 8 0)))) := by
    simp only [record, List.append_assoc]
    rfl
  have hback : symbol.record name = (Bytes.ofNat 4 name ++ [symbol.info, 0] ++ Bytes.ofNat 2 1) ++
      (Bytes.ofNat 8 symbol.value.toNat ++ Bytes.ofNat 8 0) := by
    simp only [record, List.append_assoc]
  have hname : Bytes.toNat ((symbol.record name).take 4) = name := by
    rw [hfront, List.take_left' (Bytes.ofNat_length 4 name), Bytes.toNat_ofNat,
      Nat.mod_eq_of_lt (by omega)]
  have hpacked : Bytes.toNat (((symbol.record name).drop 4).take 1) = symbol.info.toNat := by
    rw [hfront, List.drop_left' (Bytes.ofNat_length 4 name)]
    rfl
  have hlt := symbol.value.toNat_lt
  have hvalue : Bytes.toNat (((symbol.record name).drop 8).take 8) = symbol.value.toNat := by
    rw [hback, List.drop_left' (by simp only [List.length_append, Bytes.ofNat_length]; rfl),
      List.take_left' (Bytes.ofNat_length 8 _), Bytes.toNat_ofNat, Nat.mod_eq_of_lt (by omega)]
  have hbinding : symbol.info.toNat / 16 = symbol.binding.toNat % 16 := by omega
  have hkind : symbol.info.toNat % 16 = symbol.kind.toNat % 16 := by omega
  simp only [SymbolRecord.decode, hname, hpacked, hvalue, hbinding, hkind, UInt64.ofNat_toNat]

/-- The address of the symbol, where a global function is asked for by its name up to the first
zero byte. -/
def addressFor? (name : Bytes) (symbol : SymbolBlueprint) : Option Address :=
  if symbol.name.takeWhile (· ≠ 0) = name ∧ symbol.binding % 16 = 1 ∧ symbol.kind % 16 = 2 then
    some symbol.value
  else none

/-- A record stands for its symbol if the symbol is a global function. -/
theorem function?_record {names : Bytes} {offset : Nat} (hsize : names.length < 2 ^ 32)
    (hlies : LiesAt offset (Bytes.terminated symbol.name) names) :
    SymbolTable.function? (.table names) (SymbolRecord.decode (symbol.record offset)) =
      if symbol.binding % 16 = 1 ∧ symbol.kind % 16 = 2 then
        some ⟨symbol.name.takeWhile (· ≠ 0), symbol.value⟩
      else none := by
  have hle := hlies.le
  obtain ⟨rest, hdrop⟩ := hlies.drop
  have hname : SymbolNames.nameAt offset (.table names) =
      some (symbol.name.takeWhile (· ≠ 0)) := by
    rw [SymbolNames.nameAt, hdrop, Bytes.map_fst_splitZero_terminated]
  have hbinding : symbol.binding % 16 = 1 ↔ symbol.binding.toNat % 16 = 1 := by
    rw [← UInt8.toNat_inj, UInt8.toNat_mod]
    rfl
  have hkind : symbol.kind % 16 = 2 ↔ symbol.kind.toNat % 16 = 2 := by
    rw [← UInt8.toNat_inj, UInt8.toNat_mod]
    rfl
  simp only [symbol.decode_record (show offset < 2 ^ 32 by omega), SymbolTable.function?,
    SymbolRecord.isGlobalFunction, SymbolRecord.globalBinding, SymbolRecord.functionKind,
    Bool.and_eq_true, decide_eq_true_iff, hname, Option.map_some, hbinding, hkind]

/-- The records of symbols whose names lie from an offset on. -/
theorem functions_records {names : Bytes} (hsize : names.length < 2 ^ 32) {offset : Nat}
    {symbols : List SymbolBlueprint}
    (hlies : LiesAt offset (symbols.flatMap fun symbol => Bytes.terminated symbol.name) names) :
    SymbolTable.functions ⟨SymbolRecord.decodeAll (records offset symbols), .table names⟩ =
      (symbols.filter fun symbol => symbol.binding % 16 = 1 ∧ symbol.kind % 16 = 2).map
        fun symbol => ⟨symbol.name.takeWhile (· ≠ 0), symbol.value⟩ := by
  -- Records and names are walked in step: the names left lie behind those of the records read.
  induction symbols generalizing offset with
  | nil =>
      rw [records, SymbolRecord.decodeAll_nil]
      rfl
  | cons symbol rest ih =>
      rw [List.flatMap_cons] at hlies
      have hrest := hlies.right
      rw [Bytes.length_terminated, ← Nat.add_assoc] at hrest
      have hfunction := symbol.function?_record hsize hlies.left
      rw [records, SymbolRecord.decodeAll_append (symbol.length_record offset),
        SymbolTable.functions, List.filterMap_cons, hfunction, List.filter_cons]
      by_cases hglobal : symbol.binding % 16 = 1 ∧ symbol.kind % 16 = 2
      · rw [if_pos hglobal, if_pos (decide_eq_true hglobal), List.map_cons, ← ih hrest]
        rfl
      · rw [if_neg hglobal, if_neg (by simpa using hglobal), ← ih hrest]
        rfl

theorem length_decodeAll_records (offset : Nat) (symbols : List SymbolBlueprint) :
    (SymbolRecord.decodeAll (records offset symbols)).length = symbols.length := by
  induction symbols generalizing offset with
  | nil =>
      rw [records, SymbolRecord.decodeAll_nil]
      rfl
  | cons symbol rest ih =>
      rw [records, SymbolRecord.decodeAll_append (symbol.length_record offset), List.length_cons,
        List.length_cons, ih]

section Table

variable (sections : Dwarf.Sections) {symbols : List SymbolBlueprint}

/-- The first record is reserved, and all others are those of the symbols. -/
theorem decodeAll_table (symbols : List SymbolBlueprint) :
    SymbolRecord.decodeAll (table symbols) = SymbolRecord.decode (List.replicate 24 0) ::
      SymbolRecord.decodeAll (records 1 symbols) :=
  SymbolRecord.decodeAll_append (List.length_replicate ..) _

variable (hsize : (names symbols).length < 2 ^ 32)
include hsize

/-- The reserved record stands for no symbol, so the functions are those of the symbols. -/
theorem functions_table :
    (⟨sections, table symbols, .table (names symbols)⟩ : Image).symbolTable.functions =
      (symbols.filter fun symbol => symbol.binding % 16 = 1 ∧ symbol.kind % 16 = 2).map
        fun symbol => ⟨symbol.name.takeWhile (· ≠ 0), symbol.value⟩ := by
  rw [← functions_records hsize (LiesAt.behind [0] _), Image.symbolTable, decodeAll_table]
  rfl

/-- The value of a name is that of the first global function whose own name, read up to its first
zero byte, is this one. -/
theorem find?_table (name : Bytes) :
    (⟨sections, table symbols, .table (names symbols)⟩ : Image).symbolTable.find? name =
      (symbols.find? fun symbol => symbol.name.takeWhile (· ≠ 0) = name ∧
        symbol.binding % 16 = 1 ∧ symbol.kind % 16 = 2).map SymbolBlueprint.value := by
  rw [SymbolTable.find?, functions_table sections hsize, List.find?_map, List.find?_filter,
    Option.map_map]
  refine congrArg (Option.map SymbolBlueprint.value)
    (congrArg (List.find? · symbols) (funext fun symbol => ?_))
  simp [and_comm, and_assoc]

/-- A table is read back record by record behind the reserved one. Its functions are the symbols
whose binding and kind, as far as they fit, are those of global functions, each with its name up to
the first zero byte, and a name stands for the first of them. -/
theorem symbolTable_round_trip :
    (⟨sections, table symbols, .table (names symbols)⟩ : Image).symbolTable.records.length =
      symbols.length + 1 ∧
    (⟨sections, table symbols, .table (names symbols)⟩ : Image).symbolTable.functions =
      ((symbols.filter fun symbol => symbol.binding % 16 = 1 ∧ symbol.kind % 16 = 2).map
        fun symbol => ⟨symbol.name.takeWhile (· ≠ 0), symbol.value⟩) ∧
    ∀ name, (⟨sections, table symbols, .table (names symbols)⟩ : Image).symbolTable.find? name =
      (symbols.find? fun symbol => symbol.name.takeWhile (· ≠ 0) = name ∧
        symbol.binding % 16 = 1 ∧ symbol.kind % 16 = 2).map SymbolBlueprint.value := by
  refine ⟨?_, functions_table sections hsize, find?_table sections hsize⟩
  rw [Image.symbolTable, decodeAll_table, List.length_cons, length_decodeAll_records]

end Table

/-- Symbols with a name that a zero byte ends early, without a name, of a binding that is not
global, and of a name that was there before. -/
def packedSymbols : List SymbolBlueprint :=
  [⟨[97, 0, 98], 0x10, 0x11, 0xf2⟩, ⟨[], 0x20, 1, 2⟩, ⟨[98], 0x30, 2, 2⟩, ⟨[97], 0x40, 1, 2⟩]

theorem packedSymbols_round_trip :
    (⟨.empty, table packedSymbols, .table (names packedSymbols)⟩ : Image).symbolTable.functions =
      [⟨[97], 0x10⟩, ⟨[], 0x20⟩, ⟨[97], 0x40⟩] ∧
    (⟨.empty, table packedSymbols, .table (names packedSymbols)⟩ : Image).symbolTable.find? [97] =
      some 0x10 ∧
    (⟨.empty, table packedSymbols, .table (names packedSymbols)⟩ : Image).symbolTable.find? [98] =
      none := by
  have hsize : (names packedSymbols).length < 2 ^ 32 := by decide
  obtain ⟨-, hfunctions, hfind⟩ := symbolTable_round_trip .empty hsize
  exact ⟨hfunctions, hfind [97], hfind [98]⟩

end SymbolBlueprint

namespace Blueprint

/-- The table gives the value of the first global function of the name. -/
theorem find?_symbolTable {blueprint : Blueprint}
    (hsize : (SymbolBlueprint.names blueprint.symbols).length < 2 ^ 32) (name : Bytes) :
    blueprint.image.symbolTable.find? name =
      blueprint.symbols.findSome? (SymbolBlueprint.addressFor? name) := by
  rw [Lookup.findSome?_eq_map_find? (f := SymbolBlueprint.addressFor? name) fun _ _ => rfl]
  exact SymbolBlueprint.find?_table _ hsize name

end Blueprint

end Symbolizer
