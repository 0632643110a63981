import Symbolizer.Blueprint.Assemble
import Symbolizer.Blueprint.Basic
import Symbolizer.Blueprint.EntryCode
import Symbolizer.Blueprint.LineCode
import Symbolizer.BootRecord
import Symbolizer.Boundary
import Symbolizer.Bounded
import Symbolizer.Bytes
import Symbolizer.CommandLine
import Symbolizer.CommandLine.Usage
import Symbolizer.Dwarf.Abbreviation
import Symbolizer.Dwarf.AddressIndex
import Symbolizer.Dwarf.Attribute
import Symbolizer.Dwarf.CompileUnit
import Symbolizer.Dwarf.DecodeError
import Symbolizer.Dwarf.Decoded
import Symbolizer.Dwarf.Encoding
import Symbolizer.Dwarf.Engine
import Symbolizer.Dwarf.Entry
import Symbolizer.Dwarf.Leb128
import Symbolizer.Dwarf.Line.Program
import Symbolizer.Dwarf.Line.Row
import Symbolizer.Dwarf.NameIndex
import Symbolizer.Dwarf.PcRange
import Symbolizer.Dwarf.Reader
import Symbolizer.Dwarf.Reference
import Symbolizer.Dwarf.Sections
import Symbolizer.Dwarf.Subprogram
import Symbolizer.Dwarf.UnitHeader
import Symbolizer.Elf
import Symbolizer.Engine
import Symbolizer.Image
import Symbolizer.Location
import Symbolizer.Lookup
import Symbolizer.LookupError
import Symbolizer.Main
import Symbolizer.Message
import Symbolizer.Proofs.Absence
import Symbolizer.Proofs.AddressRecords
import Symbolizer.Proofs.AddressTexts
import Symbolizer.Proofs.AppendedUnits
import Symbolizer.Proofs.Asking
import Symbolizer.Proofs.Blueprint.Abbreviations
import Symbolizer.Proofs.Blueprint.AddressIndex
import Symbolizer.Proofs.Blueprint.Assembling
import Symbolizer.Proofs.Blueprint.Conditions
import Symbolizer.Proofs.Blueprint.Entries
import Symbolizer.Proofs.Blueprint.Functions
import Symbolizer.Proofs.Blueprint.LinePrograms
import Symbolizer.Proofs.Blueprint.LineRows
import Symbolizer.Proofs.Blueprint.NameIndex
import Symbolizer.Proofs.Blueprint.Placement
import Symbolizer.Proofs.Blueprint.ReservedLengths
import Symbolizer.Proofs.Blueprint.Symbols
import Symbolizer.Proofs.Blueprint.Units
import Symbolizer.Proofs.BufferHistories
import Symbolizer.Proofs.CallerAttribution
import Symbolizer.Proofs.DanglingNames
import Symbolizer.Proofs.EntryPlaces
import Symbolizer.Proofs.EntryScan
import Symbolizer.Proofs.EscapedNames
import Symbolizer.Proofs.ForeignRecords
import Symbolizer.Proofs.FunctionEntries
import Symbolizer.Proofs.FunctionRecords
import Symbolizer.Proofs.FunctionSearch
import Symbolizer.Proofs.HandedOffsets
import Symbolizer.Proofs.JoinedIndexes
import Symbolizer.Proofs.LineSequences
import Symbolizer.Proofs.LocalReading
import Symbolizer.Proofs.MessageLines
import Symbolizer.Proofs.MessageTexts
import Symbolizer.Proofs.NameReadings
import Symbolizer.Proofs.NameResolution
import Symbolizer.Proofs.NameSources
import Symbolizer.Proofs.Numbers
import Symbolizer.Proofs.Outcomes
import Symbolizer.Proofs.PartialFill
import Symbolizer.Proofs.Reading
import Symbolizer.Proofs.RecordedAddresses
import Symbolizer.Proofs.ReferenceChains
import Symbolizer.Proofs.Reporting
import Symbolizer.Proofs.Resolving
import Symbolizer.Proofs.RoundTrips
import Symbolizer.Proofs.Searches
import Symbolizer.Proofs.SectionReferences
import Symbolizer.Proofs.Sequences
import Symbolizer.Proofs.SymbolRecords
import Symbolizer.Proofs.TailCalls
import Symbolizer.Proofs.TruncatedText
import Symbolizer.Proofs.UnitPlaces
import Symbolizer.Proofs.UnitScan
import Symbolizer.Proofs.UnknownLimits
import Symbolizer.Proofs.ZeroFreeNames
import Symbolizer.Resolve
import Symbolizer.Status
import Symbolizer.Symbols
import Symbolizer.Text.Escape
import Symbolizer.Text.Hex
import Symbolizer.Text.Lossy
