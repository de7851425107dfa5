import DelayProbe.Text
/-!
# Decimal — numbers written in digits

A number is read from left to right against a limit, and the first thing wrong decides: a character that is no digit is
`invalid`, and a digit that takes the value past the limit is an `overflow`, whatever follows it.  So `99x` and `999x`
fail differently under a limit of 99.
-/
namespace DelayProbe

inductive DecimalFault where
  | invalid
  | overflow
  deriving DecidableEq, Repr

namespace Decimal

/-- The value of a digit, 0 to 9. -/
def digit (c : Char) : Nat := c.toNat - '0'.toNat

/-- The digits of a text after a value already read. -/
def scan (limit : Nat) : Nat → Text → Except DecimalFault Nat
  | n, [] => .ok n
  | n, c :: r =>
    if c.isDigit then
      if 10 * n + digit c ≤ limit then scan limit (10 * n + digit c) r else .error .overflow
    else .error .invalid

def digits (limit : Nat) (t : Text) : Except DecimalFault Nat :=
  if t = [] then .error .invalid else scan limit 0 t

/-- Digits, behind at most one plus sign. -/
def unsigned (limit : Nat) : Text → Except DecimalFault Nat
  | [] => .error .invalid
  | c :: r => if c = '+' then digits limit r else digits limit (c :: r)

/-- Digits behind at most one sign; the most negative value is one further from zero than the greatest. -/
def signed (limit : Nat) : Text → Except DecimalFault Int
  | [] => .error .invalid
  | c :: r =>
    if c = '-' then (digits (limit + 1) r).map fun n => -(n : Int)
    else (unsigned limit (c :: r)).map fun n => (n : Int)

def text (n : Nat) : Text := Nat.toDigits 10 n

/-- The shortest hexadecimal form, in lower case behind `0x`. -/
def hexText (n : Nat) : Text := '0' :: 'x' :: Nat.toDigits 16 n

def int32Max : Nat := 0x7fffffff

def word64Max : Nat := 0xffffffffffffffff

end Decimal
end DelayProbe
