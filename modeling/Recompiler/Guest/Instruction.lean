import Recompiler.Guest.Register

/-! Decoded guest instructions: the shapes that have a lowering to micro-operations, and the two classes of
instructions that have none. -/

namespace Recompiler

/-- A memory reference: the offset `base + index * scale + disp` in a segment. With `addr16` the offset wraps
at 64 KiB. -/
structure Address where
  seg : Seg
  base : Option Gpr
  index : Option Gpr
  scale : UInt8
  disp : UInt32
  addr16 : Bool
  deriving DecidableEq, Repr, Inhabited

/-- An immediate operand. `value` is extended as the encoding says; `offset` and `size` locate its bytes
inside the instruction, so that an immediate the guest keeps overwriting can be read when the block runs. -/
structure Imm where
  value : UInt32
  offset : Nat
  size : Nat
  deriving DecidableEq, Repr, Inhabited

inductive Operand where
  | reg (r : Reg)
  | mem (a : Address)
  | imm (i : Imm)
  deriving DecidableEq, Repr, Inhabited

/-- Two-operand arithmetic and logic. -/
inductive AluOp where
  | add
  | or
  | adc
  | sbb
  | and
  | sub
  | xor
  | cmp
  | test
  deriving DecidableEq, Repr, Inhabited

namespace AluOp

/-- `cmp` and `test` only update the flags. -/
def writesResult : AluOp → Bool
  | cmp | test => false
  | _ => true

/-- Whether the operation consumes the incoming carry flag. -/
def readsCarry : AluOp → Bool
  | adc | sbb => true
  | _ => false

/-- Logic operations clear carry, overflow and the auxiliary carry. -/
def isLogic : AluOp → Bool
  | or | and | xor | test => true
  | _ => false

/-- Position in encoding order, `test` last. -/
def index : AluOp → Nat
  | add => 0
  | or => 1
  | adc => 2
  | sbb => 3
  | and => 4
  | sub => 5
  | xor => 6
  | cmp => 7
  | test => 8

/-- The operation at a position of that order. -/
def ofNat? : Nat → Option AluOp
  | 0 => some add
  | 1 => some or
  | 2 => some adc
  | 3 => some sbb
  | 4 => some and
  | 5 => some sub
  | 6 => some xor
  | 7 => some cmp
  | 8 => some test
  | _ => none

@[simp] theorem ofNat?_index (op : AluOp) : ofNat? op.index = some op := by
  cases op <;> rfl

end AluOp

/-- One-operand arithmetic and logic. -/
inductive UnaryOp where
  | inc
  | dec
  | neg
  | not
  deriving DecidableEq, Repr, Inhabited

namespace UnaryOp

/-- Position in the order of the threaded encoding. -/
def index : UnaryOp → Nat
  | inc => 0
  | dec => 1
  | neg => 2
  | not => 3

/-- The operation at a position of that order. -/
def ofNat? : Nat → Option UnaryOp
  | 0 => some inc
  | 1 => some dec
  | 2 => some neg
  | 3 => some not
  | _ => none

@[simp] theorem ofNat?_index (op : UnaryOp) : ofNat? op.index = some op := by
  cases op <;> rfl

end UnaryOp

/-- The sixteen branch conditions, named for what holds after a comparison. -/
inductive Cond where
  | o
  | no
  | b
  | ae
  | e
  | ne
  | be
  | a
  | s
  | ns
  | p
  | np
  | l
  | ge
  | le
  | g
  deriving DecidableEq, Repr, Inhabited

namespace Cond

/-- Number of a condition in its encoding. -/
def code : Cond → Nat
  | o => 0
  | no => 1
  | b => 2
  | ae => 3
  | e => 4
  | ne => 5
  | be => 6
  | a => 7
  | s => 8
  | ns => 9
  | p => 10
  | np => 11
  | l => 12
  | ge => 13
  | le => 14
  | g => 15

/-- The condition with a given number. -/
def ofCode? : Nat → Option Cond
  | 0 => some o
  | 1 => some no
  | 2 => some b
  | 3 => some ae
  | 4 => some e
  | 5 => some ne
  | 6 => some be
  | 7 => some a
  | 8 => some s
  | 9 => some ns
  | 10 => some p
  | 11 => some np
  | 12 => some l
  | 13 => some ge
  | 14 => some le
  | 15 => some g
  | _ => none

@[simp] theorem ofCode?_code (c : Cond) : ofCode? c.code = some c := by
  cases c <;> rfl

end Cond

/-- What an instruction does, as far as compilation is concerned. -/
inductive Kind where
  | mov (dst src : Operand)
  | alu (op : AluOp) (dst src : Operand)
  | unary (op : UnaryOp) (dst : Operand)
  | lea (dst : Reg) (addr : Address)
  | push (src : Operand)
  | pop (dst : Reg)
  /-- Direct near jump to a new instruction pointer. -/
  | jmp (target : UInt32)
  | jcc (cond : Cond) (target : UInt32)
  | call (target : UInt32)
  /-- Near return that releases `extra` further bytes of stack. -/
  | ret (extra : UInt16)
  /-- Divide of the accumulator pair by `src`. -/
  | div (signed : Bool) (src : Operand)
  | iret
  | nop
  /-- Floating-point escape. -/
  | fpu
  /-- Emulator callback trap. -/
  | callback (index : UInt16)
  /-- A defined instruction without a lowering. -/
  | other
  /-- An undefined encoding. -/
  | invalid
  deriving DecidableEq, Repr, Inhabited

/-- A decoded instruction. `width` is the operand width of a data operation and the operand size of a stack
operation or control transfer. -/
structure Instruction where
  ip : UInt32
  len : Nat
  width : Width
  kind : Kind
  deriving DecidableEq, Repr, Inhabited

namespace Instruction

/-- Instruction pointer of the following instruction; 16-bit code wraps at 64 KiB. -/
def nextIp (i : Instruction) (code32 : Bool) : UInt32 :=
  let next := i.ip + i.len.toUInt32
  if code32 then next else next &&& 0xFFFF

/-- Whether a block ends with this instruction. -/
def endsBlock (i : Instruction) : Bool :=
  match i.kind with
  | .jmp _ | .jcc _ _ | .call _ | .ret _ | .iret | .callback _ | .other | .invalid => true
  | _ => false

end Instruction

end Recompiler
