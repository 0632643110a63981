/-! # Usage

What is printed when help is asked for: how the program or one of its commands is
called, what it does, and what its arguments mean.
-/

namespace Symbolizer.CommandLine

/-- What help is about. -/
inductive Topic
  | program
  | addresses
  | functions
  deriving DecidableEq, Repr

/-- One line of a list: a name, and in a column of its own what it stands for. -/
def listItem (name meaning : String) : String :=
  ("  " ++ name).pushn ' ' (18 - name.length) ++ meaning

namespace Topic

def purpose : Topic → String
  | program => "Resolve kernel addresses and function names using an image's debug info."
  | addresses => "Resolve code addresses to source locations."
  | functions => "Resolve function names to entry addresses."

/-- What follows the name of the program in a call. -/
def synopsis : Topic → String
  | program => "-k <kernel> [--kernel-base <kernel-base>] [-v] <command> [<args>]"
  | addresses => "addr [<addrs...>]"
  | functions => "func [<names...>]"

/-- The lists of what a call is made of, each under its heading. -/
def lists : Topic → List (String × List String)
  | program =>
    [("Options:",
      [listItem "-k, --kernel" "kernel ELF image",
        listItem "--kernel-base" "lowest kernel-space address, in hex",
        listItem "-v, --verbose" "print diagnostic messages to stderr",
        help]),
      ("Commands:", [listItem "addr" addresses.purpose, listItem "func" functions.purpose])]
  | addresses =>
    [("Positional Arguments:", [listItem "addrs" "return addresses, in hex"]),
      ("Options:", [help])]
  | functions =>
    [("Positional Arguments:", [listItem "names" "function names"]), ("Options:", [help])]
where
  help : String := listItem "--help, help" "display usage information"

/-- The help on a topic, line by line. Its parts are set apart by empty lines. -/
def lines (programName : String) (topic : Topic) : List String :=
  ("Usage: " ++ programName ++ " " ++ topic.synopsis) :: "" :: topic.purpose :: "" ::
    topic.lists.flatMap fun (heading, items) => heading :: (items ++ [""])

end Topic

end Symbolizer.CommandLine
