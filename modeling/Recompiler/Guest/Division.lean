import Recompiler.Guest.Cpu

/-! Division. The dividend has twice the width of the divisor and stands in two registers; the quotient goes to the
low one, the remainder to the high one. Both are computed in words of 64 bits. -/

namespace Recompiler

/-- Quotient toward zero; none by zero, and none if it is not a word itself. -/
def checkedDiv (n d : Int64) : Option Int64 :=
  if d = 0 ∨ n = Int64.minValue ∧ d = -1 then none else some (n / d)

/-- Remainder of the quotient toward zero, if there is one. -/
def checkedRem (n d : Int64) : Option Int64 :=
  if d = 0 ∨ n = Int64.minValue ∧ d = -1 then none else some (n % d)

namespace Width

/-- A dividend, read as two's complement. -/
def signedDividend (w : Width) (dividend : UInt64) : Int64 :=
  (dividend <<< (64 - 2 * w.bits).toUInt64).toInt64 >>> Int64.ofNat (64 - 2 * w.bits)

/-- A divisor, read as two's complement. -/
def signedDivisor (w : Width) (divisor : UInt32) : Int64 :=
  (w.signExtend divisor).toInt32.toInt64

/-- The first number that is too large for two's complement. -/
def signedLimit (w : Width) : Int64 :=
  1 <<< Int64.ofNat (w.bits - 1)

end Width

/-- Quotient and remainder, rounded toward zero, if the divisor is not zero and the quotient fits the width. -/
def quotRem (w : Width) (signed : Bool) (dividend : UInt64) (divisor : UInt32) : Option (UInt32 × UInt32) :=
  if signed then
    let n := w.signedDividend dividend
    let d := w.signedDivisor divisor
    (checkedDiv n d).bind fun q => (checkedRem n d).bind fun r =>
      if -w.signedLimit ≤ q ∧ q < w.signedLimit then some (q.toUInt64.toUInt32, r.toUInt64.toUInt32) else none
  else
    let d := divisor.toUInt64
    if d ≠ 0 ∧ dividend / d ≤ w.mask.toUInt64 then some ((dividend / d).toUInt32, (dividend % d).toUInt32) else none

namespace Cpu

/-- Register of the low half of a dividend, and of the quotient. -/
def divisionLow (w : Width) : Reg :=
  ⟨.eax, w, false⟩

/-- Register of the high half of a dividend, and of the remainder. -/
def divisionHigh : Width → Reg
  | .w8 => ⟨.eax, .w8, true⟩
  | w => ⟨.edx, w, false⟩

/-- The dividend of a division. -/
def dividend (c : Cpu) (w : Width) : UInt64 :=
  ((c.reg (divisionHigh w)).toUInt64 <<< w.bits.toUInt64) ||| (c.reg (divisionLow w)).toUInt64

/-- Writes a quotient and its remainder. -/
def setQuotRem (c : Cpu) (w : Width) (quotient remainder : UInt32) : Cpu :=
  (c.setReg (divisionLow w) quotient).setReg (divisionHigh w) remainder

/-- Divides; nothing if the division is refused. -/
def divide (c : Cpu) (w : Width) (signed : Bool) (divisor : UInt32) : Option Cpu :=
  (quotRem w signed (c.dividend w) (divisor &&& w.mask)).map fun (q, r) => c.setQuotRem w q r

end Cpu

end Recompiler
