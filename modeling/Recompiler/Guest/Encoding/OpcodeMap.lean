import Recompiler.Guest.Encoding.Form

/-! The opcode maps: which encodings are defined, and in what form the rest of the instruction comes. The maps
are those of 16-bit and 32-bit code: the one-byte opcodes, the floating-point escapes, and the two-byte opcodes
in their form without a mandatory prefix. Vector prefixes and the three-byte maps are not defined here. -/

namespace Recompiler.Encoding

/-- The entry, if the operand is in memory. -/
def Entry.onlyMemory (e : Entry) (m : ModRM) : Entry :=
  if m.isReg then .undefined else e

/-- The entry, if the operand is a register. -/
def Entry.onlyRegister (e : Entry) (m : ModRM) : Entry :=
  if m.isReg then e else .undefined

/-- An operand and `n` bytes of an instruction without a lowering. -/
def anyOperand (n : Nat) : Form :=
  .modrm fun _ => .operand false n

/-- The same for instructions that read, modify and write their operand. -/
def lockableOperand : Form :=
  .modrm fun _ => .operand true 0

/-- Which floating-point instructions exist, by escape (0 to 7) and operand byte. -/
def x87Defined (escape : Nat) (m : ModRM) : Bool :=
  if m.isReg then
    match escape, m.reg.val with
    | 0, _ => true
    | 1, 0 | 1, 1 | 1, 3 | 1, 6 | 1, 7 => true
    | 1, 2 => m.rm.val = 0
    | 1, 4 => m.rm.val = 0 || m.rm.val = 1 || m.rm.val = 4 || m.rm.val = 5
    | 1, 5 => m.rm.val ≠ 7
    | 2, 0 | 2, 1 | 2, 2 | 2, 3 => true
    | 2, 5 => m.rm.val = 1
    | 3, 0 | 3, 1 | 3, 2 | 3, 3 | 3, 5 | 3, 6 => true
    | 3, 4 => m.rm.val < 5
    | 4, _ => true
    | 5, n => n < 6
    | 6, 3 => m.rm.val = 1
    | 6, _ => true
    | 7, 4 => m.rm.val = 0
    | 7, n => n < 7
    | _, _ => false
  else
    match escape, m.reg.val with
    | 1, 1 | 3, 4 | 3, 6 | 5, 5 => false
    | _, _ => true

/-- Register encodings of floating-point instructions that only some old coprocessors had. They are undefined, and
one more byte belongs to them. -/
def x87Retired (escape : Nat) (m : ModRM) : Bool :=
  m.isReg &&
    match escape, m.low with
    | 1, 0x17 | 1, 0x22 | 1, 0x26 | 1, 0x27 => true
    | 3, 0x25 | 3, 0x3C => true
    | 5, 0x3C => true
    | 6, 0x18 | 6, 0x1A | 6, 0x1C | 6, 0x1D | 6, 0x1E => true
    | 7, 0x21 | 7, 0x22 | 7, 0x3C => true
    | _, _ => false

def x87 (escape : Nat) : Form :=
  .modrm fun m =>
    if x87Defined escape m then .fpu
    else if x87Retired escape m then .undefinedAfter 1
    else .undefined

/-- The eight operations of the arithmetic rows, by number. -/
def aluOf (n : Nat) : AluOp :=
  (AluOp.ofNat? (n % 8)).getD .add

/-- One of the arithmetic rows `00` to `3F`. -/
def aluRow (opWidth : Width) (op : Nat) : Form :=
  let f := aluOf (op / 8)
  match op % 8 with
  | 0 => .modrm fun _ => .store (.alu f) .w8
  | 1 => .modrm fun _ => .store (.alu f) opWidth
  | 2 => .modrm fun _ => .load (.alu f) .w8
  | 3 => .modrm fun _ => .load (.alu f) opWidth
  | 4 => .accumulator f .w8
  | 5 => .accumulator f opWidth
  | _ => .bare

/-- Immediate moves `C6` and `C7`; their last register encoding is a transaction instruction with an immediate
of the same width. -/
def movGroup (w : Width) (m : ModRM) : Entry :=
  if m.reg.val = 0 then .immediate .mov w w
  else if m.isReg ∧ m.reg.val = 7 ∧ m.rm.val = 0 then .operand false w.bytes
  else .undefined

/-- The group `F6` and `F7`. -/
def arithmeticGroup (w : Width) (m : ModRM) : Entry :=
  match m.reg with
  | 0 | 1 => .immediate (.alu .test) w w
  | 2 => .unary .not w
  | 3 => .unary .neg w
  | 4 | 5 => .operand false 0
  | 6 => .div false w
  | 7 => .div true w

/-- The group `FF`. -/
def transferGroup (opWidth : Width) (m : ModRM) : Entry :=
  match m.reg with
  | 0 => .unary .inc opWidth
  | 1 => .unary .dec opWidth
  | 2 | 4 => .operand false 0
  | 3 | 5 => (Entry.operand false 0).onlyMemory m
  | 6 => .push
  | 7 => .undefined

/-- Form of a one-byte opcode that is neither a prefix nor the escape to the two-byte map. -/
def oneByte (opWidth : Width) (op : Nat) : Form :=
  let w : Width := if op % 2 = 0 then .w8 else opWidth
  let n : Fin 8 := threeBits op
  if op < 0x40 then aluRow opWidth op
  else if op < 0x48 then .unaryReg .inc n
  else if op < 0x50 then .unaryReg .dec n
  else if op < 0x58 then .pushReg n
  else if op < 0x60 then .popReg n
  else if 0x70 ≤ op ∧ op < 0x80 then .jcc ((Cond.ofCode? (op % 16)).getD .o) .w8
  else if 0x91 ≤ op ∧ op < 0x98 then .bare
  else if 0xB0 ≤ op ∧ op < 0xB8 then .movImm .w8 n
  else if 0xB8 ≤ op ∧ op < 0xC0 then .movImm opWidth n
  else if 0xD8 ≤ op ∧ op < 0xE0 then x87 (op % 8)
  else match op with
  | 0x62 | 0xC4 | 0xC5 => .modrm (Entry.operand false 0).onlyMemory
  | 0x63 => anyOperand 0
  | 0x68 => .pushImm opWidth
  | 0x69 => anyOperand opWidth.bytes
  | 0x6A => .pushImm .w8
  | 0x6B => anyOperand 1
  | 0x80 | 0x82 => .modrm fun m => .immediate (.alu (aluOf m.reg)) .w8 .w8
  | 0x81 => .modrm fun m => .immediate (.alu (aluOf m.reg)) opWidth opWidth
  | 0x83 => .modrm fun m => .immediate (.alu (aluOf m.reg)) opWidth .w8
  | 0x84 | 0x85 => .modrm fun _ => .store (.alu .test) w
  | 0x86 | 0x87 => lockableOperand
  | 0x88 | 0x89 => .modrm fun _ => .store .mov w
  | 0x8A | 0x8B => .modrm fun _ => .load .mov w
  | 0x8C => .modrm fun m => if m.reg.val < 6 then .operand false 0 else .undefinedOperand
  | 0x8D => .modrm fun _ => .lea
  | 0x8E => .modrm fun m => if m.reg.val < 6 ∧ m.reg.val ≠ 1 then .operand false 0 else .undefinedOperand
  | 0x8F => .modrm fun m => if m.reg.val = 0 then .pop else .undefined
  | 0x90 => .nop
  | 0x9A | 0xEA => .farPointer
  | 0xA0 | 0xA1 => .absolute w false
  | 0xA2 | 0xA3 => .absolute w true
  | 0xA8 | 0xA9 => .accumulator .test w
  | 0xC0 | 0xC1 => anyOperand 1
  | 0xC2 => .retImm
  | 0xC3 => .ret
  | 0xC6 | 0xC7 => .modrm (movGroup w)
  | 0xC8 => .trailing 3
  | 0xCA => .trailing 2
  | 0xCF => .iret
  | 0xD0 | 0xD1 | 0xD2 | 0xD3 => anyOperand 0
  | 0xCD | 0xD4 | 0xD5 | 0xE0 | 0xE1 | 0xE2 | 0xE3 | 0xE4 | 0xE5 | 0xE6 | 0xE7 => .trailing 1
  | 0xE8 => .call opWidth
  | 0xE9 => .jmp opWidth
  | 0xEB => .jmp .w8
  | 0xF6 | 0xF7 => .modrm (arithmeticGroup w)
  | 0xFE => .modrm fun m =>
      if m.reg.val = 0 then .unary .inc .w8 else if m.reg.val = 1 then .unary .dec .w8 else .undefined
  | 0xFF => .modrm (transferGroup opWidth)
  | _ => .bare

/-- System-table instructions `0F 01`: memory operands name a table, register operands are instructions of
their own. The one that exists in 64-bit code only is undefined here, and one more byte belongs to it. -/
def systemGroup (m : ModRM) : Entry :=
  if m.isReg then
    match m.low with
    | 0x07 | 0x0C | 0x0D | 0x0E | 0x12 | 0x13 => .undefined
    | 0x29 | 0x2A | 0x2B | 0x2C | 0x2D => .undefined
    | 0x38 => .undefinedAfter 1
    | _ => .fixed
  else if m.reg.val = 5 then .undefined
  else .operand false 0

/-- Packed shifts by an immediate, which exist on registers only. -/
def shiftGroup (defined : Nat → Bool) (m : ModRM) : Entry :=
  if !defined m.reg.val then .undefined
  else if m.isReg then .operand false 1
  else .undefinedAfter 1

/-- State-saving instructions `0F AE` and, on registers, fences. -/
def stateGroup (m : ModRM) : Entry :=
  if m.isReg ∧ m.reg.val < 5 then .undefined else .operand false 0

/-- The group `0F C7`. -/
def exchangeGroup (m : ModRM) : Entry :=
  if m.isReg then
    if 6 ≤ m.reg.val then .operand false 0 else .undefined
  else match m.reg with
    | 0 | 2 => .undefined
    | 1 => .operand true 0
    | _ => .operand false 0

/-- Form of a two-byte opcode, by its second byte. Undefined opcodes still take an operand byte. -/
def twoByte (opWidth : Width) (op : Nat) : Form :=
  if 0x80 ≤ op ∧ op < 0x90 then .jcc ((Cond.ofCode? (op % 16)).getD .o) opWidth
  else if 0xC8 ≤ op ∧ op < 0xD0 then .bare
  else match op with
  | 0x00 => .modrm fun m => if m.reg.val < 6 then .operand false 0 else .undefined
  | 0x01 => .modrm systemGroup
  | 0x05 | 0x06 | 0x07 | 0x08 | 0x09 | 0x0B | 0x0E => .bare
  | 0x13 | 0x17 | 0x2B | 0xB2 | 0xB4 | 0xB5 | 0xC3 | 0xE7 => .modrm (Entry.operand false 0).onlyMemory
  | 0x1F => .modrm fun m => if m.reg.val = 0 then .nop else .operand false 0
  | 0x20 | 0x22 => .modrm fun m => if m.reg.val = 1 ∨ 5 ≤ m.reg.val then .undefined else .fixed
  | 0x21 | 0x23 => .modrm fun _ => .fixed
  | 0x30 | 0x31 | 0x32 | 0x33 | 0x34 | 0x35 | 0x37 | 0x77 => .bare
  | 0x50 | 0xD7 | 0xF7 => .modrm (Entry.operand false 0).onlyRegister
  | 0x70 | 0xA4 | 0xAC | 0xC2 | 0xC4 | 0xC6 => anyOperand 1
  | 0x71 | 0x72 => .modrm (shiftGroup fun r => r = 2 || r = 4 || r = 6)
  | 0x73 => .modrm (shiftGroup fun r => r = 2 || r = 6)
  | 0xA0 | 0xA1 | 0xA2 | 0xA8 | 0xA9 | 0xAA => .bare
  | 0xA7 => .modrm fun m => if m.isReg ∧ m.reg.val = 0 then .fixed else .undefined
  | 0xAB | 0xB0 | 0xB1 | 0xB3 | 0xBB | 0xC0 | 0xC1 => lockableOperand
  | 0xAE => .modrm stateGroup
  | 0xBA => .modrm fun m => if m.reg.val < 4 then .undefined else .operand (4 < m.reg.val) 1
  | 0xC5 => .modrm fun m => if m.isReg then .operand false 1 else .undefinedAfter 1
  | 0xC7 => .modrm exchangeGroup
  | 0x04 | 0x0A | 0x0C | 0x0F | 0x24 | 0x25 | 0x26 | 0x27 | 0x36 | 0x38 | 0x39 | 0x3A | 0x3B | 0x3C | 0x3D | 0x3E | 0x3F
  | 0x6C | 0x6D | 0x7A | 0x7B | 0x7C | 0x7D | 0xA6 | 0xB8 | 0xD0 | 0xD6 | 0xE6 | 0xF0 => .modrm fun _ => .undefined
  | _ => anyOperand 0

end Recompiler.Encoding
