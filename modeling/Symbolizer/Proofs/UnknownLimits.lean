import Mathlib.Data.List.Basic
import Symbolizer.Blueprint.Assemble
import Symbolizer.BootRecord
import Symbolizer.Resolve

/-! # Names without a limit

A name that ends inside the table of names is the same whether the end of the table is
known or not: a reader who goes on to the next zero byte in memory never leaves the
table. So the functions of an image and the addresses of their names do not depend on
whether the boot stage noted that end.
-/

namespace Symbolizer

namespace Memory

variable (memory : Memory)

theorem read_add (address first second : Nat) :
    memory.read address (first + second) =
      memory.read address first ++ memory.read (address + first) second := by
  induction first generalizing address with
  | zero => rw [Nat.zero_add, Nat.add_zero, read, List.nil_append]
  | succ first ih =>
      rw [Nat.succ_add, read, read, ih, List.cons_append, Nat.succ_add_eq_add_succ]

theorem length_read (address count : Nat) : (memory.read address count).length = count := by
  induction count generalizing address with
  | zero => rfl
  | succ count ih => rw [read, List.length_cons, ih]

/-- What lies in front of other bytes, and those bytes. -/
theorem readOn_eq_append {address count : Nat} (h : count ≤ UInt64.size - address) :
    memory.readOn address = memory.read address count ++ memory.readOn (address + count) := by
  rw [readOn, readOn, Nat.sub_add_eq, ← read_add, Nat.add_sub_cancel' h]

theorem drop_readOn (address offset : Nat) :
    (memory.readOn address).drop offset = memory.readOn (address + offset) := by
  rcases Nat.le_total offset (UInt64.size - address) with hle | hge
  · rw [memory.readOn_eq_append hle, List.drop_left' (memory.length_read _ _)]
  · have hempty : memory.readOn (address + offset) = [] := by
      rw [readOn, Nat.sub_add_eq, Nat.sub_eq_zero_of_le hge]
      rfl
    rw [hempty, List.drop_eq_nil_of_le]
    rwa [readOn, length_read]

theorem readOn_of_lt {address : Nat} (h : address < UInt64.size) :
    memory.readOn address = memory (.ofNat address) :: memory.readOn (address + 1) :=
  memory.readOn_eq_append (Nat.sub_pos_of_lt h)

theorem map_fst_splitZero_readOn (address : Nat) :
    (Bytes.splitZero (memory.readOn address)).map Prod.fst = memory.textAt address := by
  fun_induction textAt memory address with
  | case1 address hlt hzero => rw [memory.readOn_of_lt hlt, Bytes.splitZero, if_pos hzero]; rfl
  | case2 address hlt hzero ih =>
      rw [memory.readOn_of_lt hlt, Bytes.splitZero, if_neg hzero, ← ih, Option.map_map,
        Option.map_map]
      rfl
  | case3 address hge =>
      rw [readOn, Nat.sub_eq_zero_of_le (Nat.le_of_not_lt hge)]
      rfl

end Memory

/-- Behind a name that ends in a table the bytes after the table do not matter. -/
theorem SymbolNames.nameAt_memory_append {offset : Nat} {table : Bytes}
    (h : 0 ∈ table.drop offset) (behind : Bytes) :
    nameAt offset (.memory (table ++ behind)) = nameAt offset (.table table) := by
  have hinside : offset ≤ table.length := by
    refine Nat.le_of_not_lt fun hout => ?_
    rw [List.drop_eq_nil_of_le (Nat.le_of_lt hout)] at h
    cases h
  cases hsplit : Bytes.splitZero (table.drop offset) with
  | none => exact absurd h (Bytes.splitZero_eq_none.mp hsplit)
  | some split =>
      rw [nameAt, nameAt, List.drop_append_of_le_length hinside,
        Bytes.splitZero_append hsplit, hsplit]
      rfl

theorem Engine.resolveName_congr (engine : Engine) {symbols other : SymbolTable} {name : Bytes}
    (h : symbols.find? name = other.find? name) :
    engine.resolveName symbols name = engine.resolveName other name := by
  rw [resolveName, resolveName, h]

namespace BootRecord

variable (memory : Memory) (record : BootRecord)

theorem names_withoutNamesLimit {record : BootRecord} (h : record.symbolNames.first ≠ 0) :
    record.withoutNamesLimit.names memory =
      .memory (memory.readOn record.symbolNames.first.toNat) := by
  rw [names, if_neg]
  · rfl
  · simp [withoutNamesLimit, SectionRange.limitKnown, h]

theorem exists_readOn_first (range : SectionRange) :
    ∃ behind, memory.readOn range.first.toNat = range.contents memory ++ behind := by
  have hfirst := range.first.toNat_lt_size
  have hlimit := range.limit.toNat_lt_size
  refine ⟨_, memory.readOn_eq_append ?_⟩
  rw [SectionRange.size]
  omega

/-- Each name of a function ends inside the table of names. -/
def NamesEnd : Prop :=
  ∀ symbol ∈ (record.image memory).symbolTable.records, symbol.isGlobalFunction = true →
    symbol.name < record.symbolNames.size ∧
      0 ∈ (record.symbolNames.contents memory).drop symbol.name

variable {memory record}

theorem nameAt_withoutNamesLimit (hfirst : record.symbolNames.first ≠ 0) {offset : Nat}
    (hended : 0 ∈ (record.symbolNames.contents memory).drop offset) :
    (record.withoutNamesLimit.names memory).nameAt offset =
      (record.names memory).nameAt offset := by
  obtain ⟨behind, hbehind⟩ := exists_readOn_first memory record.symbolNames
  have hopen : (record.withoutNamesLimit.names memory).nameAt offset =
      (SymbolNames.table (record.symbolNames.contents memory)).nameAt offset := by
    rw [names_withoutNamesLimit memory hfirst, hbehind]
    exact SymbolNames.nameAt_memory_append hended behind
  cases hknown : record.symbolNames.limitKnown with
  | true => rw [hopen, names, hknown]; rfl
  | false =>
      rw [names_withoutNamesLimit memory hfirst, names, hknown]
      rfl

/-- Where each name of a function ends inside the table of names, it does not matter whether the
end of the table is known: the functions are the same, in the same order, and each name is resolved
in the same way. Without that end a name is read from the address at which it starts to the next
zero byte in memory. -/
theorem unknown_limit_agrees (hfirst : record.symbolNames.first ≠ 0)
    (hended : record.NamesEnd memory) :
    (record.withoutNamesLimit.image memory).symbolTable.functions =
      (record.image memory).symbolTable.functions ∧
    (∀ name, (record.withoutNamesLimit.image memory).resolveName name =
      (record.image memory).resolveName name) ∧
    ∀ offset, (record.withoutNamesLimit.names memory).nameAt offset =
      memory.textAt (record.symbolNames.first.toNat + offset) := by
  have hfunctions : (record.withoutNamesLimit.image memory).symbolTable.functions =
      (record.image memory).symbolTable.functions := by
    refine List.filterMap_congr fun symbol hsymbol => ?_
    cases hglobal : symbol.isGlobalFunction with
    | false => simp [SymbolTable.function?, hglobal]
    | true =>
        simp only [SymbolTable.function?, hglobal, if_true]
        exact congrArg _ (nameAt_withoutNamesLimit hfirst (hended symbol hsymbol hglobal).2)
  refine ⟨hfunctions, fun name => ?_, fun offset => ?_⟩
  · exact Engine.resolveName_congr _ (by rw [SymbolTable.find?, SymbolTable.find?, hfunctions])
  · rw [names_withoutNamesLimit memory hfirst, ← memory.map_fst_splitZero_readOn,
      ← memory.drop_readOn]
    rfl

/-- Names from 0x10 to 0x14, and a symbol at 0x20 whose name starts inside another one. Nothing but
the table itself has a zero byte before the symbol. -/
def sharedNameMemory : Memory := fun address =>
  (List.replicate 0x10 0xff ++ (0 :: Bytes.terminated (Bytes.ofText "gf")) ++
    List.replicate 0xc 0xff ++
      (SymbolBlueprint.globalFunction (Bytes.ofText "f") 0x800000001000).record 2).getD
    address.toNat 0

def sharedNameRecord : BootRecord := ⟨fun _ => ⟨0, 0⟩, ⟨0x20, 0x38⟩, ⟨0x10, 0x14⟩⟩

theorem sharedName_agrees :
    (sharedNameRecord.withoutNamesLimit.image sharedNameMemory).symbolTable.functions =
      [⟨Bytes.ofText "f", 0x800000001000⟩] ∧
    ((sharedNameRecord.withoutNamesLimit.image sharedNameMemory).resolveName
      (Bytes.ofText "f")).start.1 = .ok 0x800000001000 ∧
    sharedNameMemory.textAt 0x12 = some (Bytes.ofText "f") := by
  have hrecords : (sharedNameRecord.image sharedNameMemory).symbolTable.records =
      [⟨2, 1, 2, 0x800000001000⟩] := by decide +kernel
  have hended : sharedNameRecord.NamesEnd sharedNameMemory := by
    intro symbol hsymbol _
    rw [hrecords, List.mem_singleton] at hsymbol
    subst hsymbol
    decide
  have hfirst : sharedNameRecord.symbolNames.first ≠ 0 := by decide
  obtain ⟨hfunctions, hresolve, htext⟩ := unknown_limit_agrees hfirst hended
  refine ⟨hfunctions.trans (by decide +kernel), ?_, ?_⟩
  · rw [hresolve]
    decide +kernel
  · have hinside : 0 ∈ (sharedNameRecord.symbolNames.contents sharedNameMemory).drop 2 := by decide
    exact (htext 2).symm.trans ((nameAt_withoutNamesLimit hfirst hinside).trans (by decide +kernel))

end BootRecord

end Symbolizer
