import Recompiler.Code.Assembly

/-! Threaded code: an operation is a numbered opcode byte and its operands, least significant byte first. Jumps
hold absolute host addresses. An absent register is written `0xFF`. -/

namespace Recompiler.Threaded

/-- Little-endian words as pieces of their own. -/
def u16 (n : Nat) : Piece := .raw (littleEndian 2 n)
def u32 (n : UInt32) : Piece := .raw (littleEndian 4 n.toNat)
def u64 (n : UInt64) : Piece := .raw (littleEndian 8 n.toNat)

def tmp (t : Tmp) : UInt8 := t.index.val.toUInt8
def width (w : Width) : UInt8 := w.bytes.toUInt8
def gpr (g : Gpr) : UInt8 := g.index.val.toUInt8

def optGpr : Option Gpr → UInt8
  | some g => gpr g
  | none => 0xFF

def bool (b : Bool) : UInt8 :=
  if b then 1 else 0

def reg (r : Reg) : Piece :=
  .raw [gpr r.gpr, width r.width, bool r.high8]

/-- A width in the low byte and a flag above it. -/
def widthFlag (w : Width) (flag : Bool) : Nat :=
  w.bytes + if flag then 256 else 0

def action : Action → List Piece
  | .enter block => [.raw [1], u32 block]
  | .loadImm dst value => [.raw [2, tmp dst], u32 value]
  | .loadPhys dst paddr w signExtend => [.raw [3, tmp dst], u32 paddr, u16 (widthFlag w signExtend)]
  | .loadReg dst r => [.raw [4, tmp dst], reg r]
  | .storeReg r src => [.raw [5, tmp src], reg r]
  | .mov dst src => [.raw [6, tmp dst, tmp src]]
  | .addImm dst value => [.raw [7, tmp dst], u32 value]
  | .andImm dst value => [.raw [8, tmp dst], u32 value]
  | .lea dst addr =>
    [.raw [9, tmp dst, optGpr addr.base, optGpr addr.index, addr.scale, bool addr.addr16], u32 addr.disp]
  | .addSegBase dst seg => [.raw [10, tmp dst, seg.index.val.toUInt8]]
  | .alu op w dst src => [.raw [11, op.index.toUInt8, width w, tmp dst, tmp src]]
  | .unary op w dst => [.raw [12, op.index.toUInt8, width w, tmp dst]]
  | .load dst addr w => [.raw [13, tmp dst, tmp addr, width w]]
  | .store addr src w => [.raw [14, tmp addr, tmp src, width w]]
  | .div w signed divisor => [.raw [15, tmp divisor], u16 (widthFlag w signed)]
  | .interpret nextEip => [.raw [16], u32 nextEip]
  | .iret w => [.raw [17, width w]]
  | .subCycles n => [.raw [18], u32 n]
  | .setEip eip => [.raw [19], u32 eip]
  | .storeEip src => [.raw [20, tmp src]]
  | .setCallback n => [.raw [21], u32 n]

def pieces : MicroOp → List Piece
  | .act a => action a
  | .jumpIf cond label => [.raw [22, cond.code.toUInt8], .label label]
  | .bind _ => []
  | .exit code => [.raw [23], u32 code.raw]
  | .link slot entry => [.raw [24, slot.toUInt8], u64 entry]

/-- A label field holds the host address of the label. -/
def encoding : HostEncoding where
  pieces := pieces
  labelSize := 8
  labelField base _ target := littleEndian 8 (base + target)

end Recompiler.Threaded
