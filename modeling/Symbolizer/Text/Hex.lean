import Symbolizer.Bytes

/-! # Hexadecimal addresses

Addresses are written in lower case after `0x`, either with the fewest digits or
with all sixteen. They are read in either case, with or without that mark, with
underscores anywhere behind it and with one plus sign in front of the digits.
-/

namespace Symbolizer.Hex

def digit (value : Nat) : Char :=
  "0123456789abcdef".toList.getD value '0'

def digits (n : Nat) : List Char :=
  if n < 16 then [digit n] else digits (n / 16) ++ [digit (n % 16)]

/-- The low digits of a number, leading zeros included. -/
def fixedDigits : (count : Nat) → Nat → List Char
  | 0, _ => []
  | count + 1, n => fixedDigits count (n / 16) ++ [digit (n % 16)]

def ofNat (n : Nat) : String := String.ofList ('0' :: 'x' :: digits n)

def ofAddress (address : Address) : String := ofNat address.toNat

/-- All sixteen digits of an address. -/
def padded (address : Address) : String :=
  String.ofList ('0' :: 'x' :: fixedDigits 16 address.toNat)

def digitValue? (c : Char) : Option Nat :=
  if '0' ≤ c ∧ c ≤ '9' then some (c.toNat - '0'.toNat)
  else if 'a' ≤ c ∧ c ≤ 'f' then some (c.toNat - 'a'.toNat + 10)
  else if 'A' ≤ c ∧ c ≤ 'F' then some (c.toNat - 'A'.toNat + 10)
  else none

/-- Why a text is not an address. -/
inductive Fault
  | empty
  | invalidDigit
  | tooLarge
  deriving DecidableEq, Repr

def Fault.message : Fault → String
  | .empty => "cannot parse integer from empty string"
  | .invalidDigit => "invalid digit found in string"
  | .tooLarge => "number too large to fit in target type"

/-- Reads on from the value of the digits so far. At one character a bad digit is found
before a value that has grown too large. -/
def parseDigits : Nat → List Char → Except Fault Address
  | value, [] => .ok (UInt64.ofNat value)
  | value, c :: rest =>
    match digitValue? c with
    | none => .error .invalidDigit
    | some d =>
      if 16 * value + d < UInt64.size then parseDigits (16 * value + d) rest
      else .error .tooLarge

/-- Reads a number: digits, with one plus sign in front if any digit follows. -/
def parseNumber : List Char → Except Fault Address
  | [] => .error .empty
  | ['+'] => .error .invalidDigit
  | '+' :: rest => parseDigits 0 rest
  | text => parseDigits 0 text

/-- The text behind one mark `0x` or `0X`, if it starts with one. -/
def withoutMark : List Char → List Char
  | '0' :: 'x' :: rest => rest
  | '0' :: 'X' :: rest => rest
  | text => text

def parse (text : List Char) : Except Fault Address :=
  parseNumber ((withoutMark text).filter (· ≠ '_'))

end Symbolizer.Hex
