import Recompiler.Guest.Instruction

/-! Arithmetic of the guest and its status flags, at every operand width. Flags that the architecture leaves
undefined (the auxiliary carry after logic) are cleared. -/

namespace Recompiler

namespace Flag

def cf : UInt32 := 0x1
/-- Always reads as one. -/
def reserved1 : UInt32 := 0x2
def pf : UInt32 := 0x4
def af : UInt32 := 0x10
def zf : UInt32 := 0x40
def sf : UInt32 := 0x80
def tf : UInt32 := 0x100
def ief : UInt32 := 0x200
def df : UInt32 := 0x400
def of : UInt32 := 0x800

/-- The flags written by arithmetic. -/
def status : UInt32 := of ||| sf ||| zf ||| af ||| pf ||| cf

/-- The flags a real-mode interrupt return loads, by operand size. -/
def iretMask : Width → UInt32
  | .w32 => 0x257FD5
  | _ => 0x7FD5

/-- Whether any flag of a mask is set. -/
def test (eflags mask : UInt32) : Bool :=
  eflags &&& mask ≠ 0

/-- A flag, set or clear. -/
def when (f : UInt32) (on : Bool) : UInt32 :=
  if on then f else 0

end Flag

namespace Cond

/-- Whether the condition holds for a flags word. Odd codes negate the preceding even one. -/
def holds (c : Cond) (eflags : UInt32) : Bool :=
  let cf := Flag.test eflags Flag.cf
  let pf := Flag.test eflags Flag.pf
  let zf := Flag.test eflags Flag.zf
  let sf := Flag.test eflags Flag.sf
  let of := Flag.test eflags Flag.of
  match c with
  | o => of
  | no => !of
  | b => cf
  | ae => !cf
  | e => zf
  | ne => !zf
  | be => cf || zf
  | a => !(cf || zf)
  | s => sf
  | ns => !sf
  | p => pf
  | np => !pf
  | l => sf != of
  | ge => !(sf != of)
  | le => zf || sf != of
  | g => !(zf || sf != of)

end Cond

namespace Arithmetic

/-- Whether the low byte has an even number of set bits. -/
def evenParity (value : UInt32) : Bool :=
  (List.range 8).countP (fun i => (value >>> i.toUInt32) &&& 1 = 1) % 2 = 0

/-- Zero, sign and parity of a result. -/
def resultFlags (w : Width) (result : UInt32) : UInt32 :=
  Flag.when Flag.zf (result &&& w.mask = 0)
    ||| Flag.when Flag.sf (result &&& w.signBit ≠ 0)
    ||| Flag.when Flag.pf (evenParity result)

/-- Sum with an incoming carry of zero or one, and its status flags. -/
def add (w : Width) (a b carry : UInt32) : UInt32 × UInt32 :=
  let a := a &&& w.mask
  let b := b &&& w.mask
  let wide := a.toUInt64 + b.toUInt64 + carry.toUInt64
  let result := wide.toUInt32 &&& w.mask
  (result,
    resultFlags w result
      ||| Flag.when Flag.cf (w.mask.toUInt64 < wide)
      ||| Flag.when Flag.af ((a ^^^ b ^^^ result) &&& 0x10 ≠ 0)
      ||| Flag.when Flag.of ((a ^^^ result) &&& (b ^^^ result) &&& w.signBit ≠ 0))

/-- Difference with an incoming borrow of zero or one, and its status flags. -/
def sub (w : Width) (a b borrow : UInt32) : UInt32 × UInt32 :=
  let a := a &&& w.mask
  let b := b &&& w.mask
  let result := (a - b - borrow) &&& w.mask
  (result,
    resultFlags w result
      ||| Flag.when Flag.cf (a.toUInt64 < b.toUInt64 + borrow.toUInt64)
      ||| Flag.when Flag.af ((a ^^^ b ^^^ result) &&& 0x10 ≠ 0)
      ||| Flag.when Flag.of ((a ^^^ b) &&& (a ^^^ result) &&& w.signBit ≠ 0))

/-- A logic result and its status flags. -/
def logic (w : Width) (value : UInt32) : UInt32 × UInt32 :=
  let result := value &&& w.mask
  (result, resultFlags w result)

/-- Result of an operation at a width, and the new flags word. For `cmp` and `test` the result is what the
instruction computes and does not store. -/
def alu (op : AluOp) (w : Width) (a b eflags : UInt32) : UInt32 × UInt32 :=
  let carry := eflags &&& Flag.cf
  let (result, status) :=
    match op with
    | .add => add w a b 0
    | .adc => add w a b carry
    | .sub | .cmp => sub w a b 0
    | .sbb => sub w a b carry
    | .and | .test => logic w (a &&& b)
    | .or => logic w (a ||| b)
    | .xor => logic w (a ^^^ b)
  (result, (eflags &&& ~~~Flag.status) ||| status)

/-- Result of a one-operand operation at a width, and the new flags word. `inc` and `dec` keep the carry; `not`
keeps every flag. -/
def unary (op : UnaryOp) (w : Width) (a eflags : UInt32) : UInt32 × UInt32 :=
  let keepCarry (r : UInt32 × UInt32) : UInt32 × UInt32 :=
    (r.1, (eflags &&& ~~~(Flag.status &&& ~~~Flag.cf)) ||| (r.2 &&& ~~~Flag.cf))
  match op with
  | .inc => keepCarry (add w a 1 0)
  | .dec => keepCarry (sub w a 1 0)
  | .neg =>
    let (result, status) := sub w 0 a 0
    (result, (eflags &&& ~~~Flag.status) ||| status)
  | .not => (~~~a &&& w.mask, eflags)

end Arithmetic

end Recompiler
