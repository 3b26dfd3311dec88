/-
Integers of a fixed range, and truth values, read from a captured text.

An integer is an optional sign and at least one decimal digit; a minus sign is
only for ranges with negative numbers. Digits are read from the left and the
first thing wrong is what is reported: a character that is no digit, or a value
that has left the range. A negative number is built downwards, so that the
least one can be read.
-/
import RoutePattern.Captures.Basic

set_option autoImplicit false

namespace RoutePattern

/-- A range of integers: those that fit in so many bits, with or without a sign. -/
structure IntRange where
  signed : Bool
  bits : Nat
  deriving DecidableEq, Repr

namespace IntRange

/-- How many integers have so many bits. -/
def count (bits : Nat) : Int := Int.pow 2 bits

/-- The least integer of the range. -/
def least (r : IntRange) : Int := if r.signed then -count (r.bits - 1) else 0

/-- The greatest integer of the range. -/
def greatest (r : IntRange) : Int := (if r.signed then count (r.bits - 1) else count r.bits) - 1

end IntRange

/-- Why a text is not the wanted numeral or truth value. -/
inductive NumeralFault where
  | empty
  | invalidDigit
  | tooLarge
  | tooSmall
  | notBool
  deriving DecidableEq, Repr

/-- The wording of a fault. -/
def NumeralFault.message : NumeralFault → String
  | empty => "cannot parse integer from empty string"
  | invalidDigit => "invalid digit found in string"
  | tooLarge => "number too large to fit in target type"
  | tooSmall => "number too small to fit in target type"
  | notBool => "provided string was not `true` or `false`"

namespace Numeral

/-! ## Digits -/

/-- The value of a decimal digit. -/
def digitValue? (c : Char) : Option Nat :=
  if c.isDigit then some (c.toNat - '0'.toNat) else none

/-- One more digit behind a value, away from zero. -/
def extend (negative : Bool) (value : Int) (digit : Nat) : Int :=
  if negative then value * 10 - digit else value * 10 + digit

/-- Reads digits behind a value, as long as it stays in the range. -/
def readDigits (r : IntRange) (negative : Bool) : Int → List Char → Except NumeralFault Int
  | value, [] => .ok value
  | value, c :: rest =>
    match digitValue? c with
    | none => .error .invalidDigit
    | some d =>
      if r.greatest < extend negative value d then .error .tooLarge
      else if extend negative value d < r.least then .error .tooSmall
      else readDigits r negative (extend negative value d) rest

/-- Reads what follows a sign. A sign alone is no numeral. -/
def readSigned (r : IntRange) (negative : Bool) : List Char → Except NumeralFault Int
  | [] => .error .invalidDigit
  | digits => readDigits r negative 0 digits

/-! ## Whole texts -/

/-- Reads an integer of a range (`from_str`). -/
def readInt (r : IntRange) (s : String) : Except NumeralFault Int :=
  match s.toList with
  | [] => .error .empty
  | '+' :: rest => readSigned r false rest
  | '-' :: rest => if r.signed then readSigned r true rest else .error .invalidDigit
  | digits => readDigits r false 0 digits

/-- Reads a truth value (`from_str`). -/
def readBool (s : String) : Except NumeralFault Bool :=
  if s = "true" then .ok true
  else if s = "false" then .ok false
  else .error .notBool

end Numeral

/-! ## From captures -/

namespace Captures

/-- The single text that the path gave to a name. -/
def text? (c : Captures) (name : String) : Option String := (c.name? name).bind Value.text?

/-- The integer that the path gave to a name (`parse`), if it gave a single text. -/
def int? (c : Captures) (r : IntRange) (name : String) : Option (Except NumeralFault Int) :=
  (c.text? name).map (Numeral.readInt r)

/-- The truth value that the path gave to a name (`parse`), if it gave a single text. -/
def bool? (c : Captures) (name : String) : Option (Except NumeralFault Bool) :=
  (c.text? name).map Numeral.readBool

end Captures

example : (Numeral.readInt ⟨true, 8⟩ "-128").toOption = some (-128) := by decide +kernel

example : (Numeral.readInt ⟨true, 8⟩ "-129").toOption = none := by decide +kernel

end RoutePattern
