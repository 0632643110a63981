import Symbolizer.LookupError
import Symbolizer.Text.Escape

/-! # Diagnostic messages

What lookups and resolvers report about their way to an answer. Names from the image
or the caller are written in printable form.
-/

namespace Symbolizer

/-- The steps of resolving an address. -/
inductive Step
  | unit
  | file
  | line
  | function
  deriving DecidableEq, Repr

def Step.text : Step → String
  | unit => "unit"
  | file => "file"
  | line => "line"
  | function => "function"

inductive Message
  | notIndexed (address : Address)
  | unnamedSubprogram (address : Address)
  | notFunction (name : Bytes)
  | unreadableRanges (entry : Nat) (cause : Dwarf.DecodeError)
  | stepFailed (address : Address) (step : Step) (error : LookupError)
  | nameTruncated (address : Address)
  | notInNameIndex (name : Bytes)
  | notInEntries (name : Bytes)
  | notInSymbols (name : Bytes)
  deriving DecidableEq, Repr

namespace Message

def body : Message → String
  | notIndexed address =>
    Hex.ofAddress address ++ " not covered by .debug_aranges, scanning units"
  | unnamedSubprogram address =>
    Hex.ofAddress address ++ ": enclosing subprogram has no name"
  | notFunction name => "index entry for " ++ Escape.text name ++ " is not a function"
  | unreadableRanges entry cause =>
    "subprogram at unit offset " ++ Hex.ofNat entry ++ ": unreadable PC ranges: " ++ cause.message
  | stepFailed address step error =>
    Hex.ofAddress address ++ ": " ++ step.text ++ " lookup failed: " ++ error.message
  | nameTruncated address => Hex.ofAddress address ++ ": function name truncated"
  | notInNameIndex name => Escape.text name ++ ": not in name index"
  | notInEntries name => Escape.text name ++ ": not in debug entries"
  | notInSymbols name => Escape.text name ++ ": not in symbol table"

def text (message : Message) : String := "kdebug: " ++ message.body

/-- A report: every message ends its line. -/
def report (messages : List Message) : String :=
  String.join (messages.map fun message => message.text ++ "\n")

end Message

end Symbolizer
