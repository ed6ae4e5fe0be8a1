/-! Byte strings as lower-case hexadecimal digits, two to a byte. -/

namespace Recompiler.Text

/-- The digit of a number below sixteen. -/
def hexDigit (n : Nat) : Char :=
  (Nat.toDigits 16 (n % 16)).headD '0'

/-- The number of a digit, in either case. -/
def hexValue? (c : Char) : Option Nat :=
  if '0' ≤ c ∧ c ≤ '9' then some (c.toNat - '0'.toNat)
  else if 'a' ≤ c ∧ c ≤ 'f' then some (c.toNat - 'a'.toNat + 10)
  else if 'A' ≤ c ∧ c ≤ 'F' then some (c.toNat - 'A'.toNat + 10)
  else none

/-- The digits of a byte string. -/
def hexBytes (bytes : List UInt8) : String :=
  String.ofList (bytes.flatMap fun b => [hexDigit (b.toNat / 16), hexDigit b.toNat])

/-- Reads pairs of digits. -/
def unhexChars : List Char → Option (List UInt8)
  | [] => some []
  | [_] => none
  | high :: low :: rest => do
    let h ← hexValue? high
    let l ← hexValue? low
    return (16 * h + l).toUInt8 :: (← unhexChars rest)

/-- Reads a byte string off its digits. -/
def unhex? (digits : String) : Option (List UInt8) :=
  unhexChars digits.toList

end Recompiler.Text
