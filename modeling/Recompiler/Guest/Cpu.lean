import Recompiler.Guest.Arithmetic

/-! Architectural state of the guest processor, with the cycle budget that compiled code and the interpreter
charge. -/

namespace Recompiler

structure Cpu where
  /-- General registers in encoding order. -/
  regs : Vector UInt32 8 := .replicate 8 0
  eip : UInt32 := 0
  eflags : UInt32 := Flag.reserved1
  segBase : Vector UInt32 6 := .replicate 6 0
  segSel : Vector UInt16 6 := .replicate 6 0
  /-- Cycles left of the current slice. -/
  cycles : Int32 := 0
  /-- Cycles put aside while a single instruction goes through the interpreter. -/
  cycleLeft : Int32 := 0
  /-- 32-bit code segment. -/
  codeBig : Bool := false
  /-- 32-bit stack segment. -/
  stackBig : Bool := false
  protectedMode : Bool := false
  /-- Set by the interpreter when the single step it took must not raise a debug exception. -/
  trapSkip : Bool := false
  deriving DecidableEq, Repr, Inhabited

namespace Cpu

/-- 16-bit real mode with all segments at zero. -/
def realMode : Cpu := {}

/-- 32-bit protected mode with zero-based segments. -/
def flat32 : Cpu :=
  { codeBig := true, stackBig := true, protectedMode := true }

def gpr (c : Cpu) (g : Gpr) : UInt32 :=
  c.regs[g.index]

def setGpr (c : Cpu) (g : Gpr) (value : UInt32) : Cpu :=
  { c with regs := c.regs.set g.index value }

/-- Value of a register view, zero-extended. -/
def reg (c : Cpu) (r : Reg) : UInt32 :=
  let full := c.gpr r.gpr
  match r.width, r.high8 with
  | .w8, true => (full >>> 8) &&& 0xFF
  | w, _ => full &&& w.mask

/-- Writes the bits of a register view and keeps the others. -/
def setReg (c : Cpu) (r : Reg) (value : UInt32) : Cpu :=
  let full := c.gpr r.gpr
  let updated : UInt32 :=
    match r.width, r.high8 with
    | .w8, true => (full &&& (0xFFFF00FF : UInt32)) ||| ((value &&& (0xFF : UInt32)) <<< (8 : UInt32))
    | w, _ => (full &&& ~~~w.mask) ||| (value &&& w.mask)
  c.setGpr r.gpr updated

def getFlag (c : Cpu) (mask : UInt32) : Bool :=
  Flag.test c.eflags mask

def setFlag (c : Cpu) (mask : UInt32) (on : Bool) : Cpu :=
  { c with eflags := if on then c.eflags ||| mask else c.eflags &&& ~~~mask }

def base (c : Cpu) (s : Seg) : UInt32 :=
  c.segBase[s.index]

/-- Loads a segment register as in real mode, where the base is sixteen times the selector. -/
def loadRealSegment (c : Cpu) (s : Seg) (selector : UInt16) : Cpu :=
  { c with
    segSel := c.segSel.set s.index selector
    segBase := c.segBase.set s.index (selector.toUInt32 <<< 4) }

/-- Linear address of the next instruction. -/
def ipLinear (c : Cpu) : UInt32 :=
  c.base .cs + c.eip

/-- Bits of the instruction pointer that count for the code size. -/
def ipMask (c : Cpu) : UInt32 :=
  if c.codeBig then 0xFFFFFFFF else 0xFFFF

/-- Width of the stack pointer. -/
def stackWidth (c : Cpu) : Width :=
  if c.stackBig then .w32 else .w16

/-- The view of the stack pointer that stack operations use. -/
def stackReg (c : Cpu) : Reg :=
  ⟨.esp, c.stackWidth, false⟩

/-- Offset of a memory reference in its segment. -/
def offset (c : Cpu) (a : Address) : UInt32 :=
  let part : Option Gpr → UInt32
    | some g => c.gpr g
    | none => 0
  let ea := a.disp + part a.base + part a.index * a.scale.toUInt32
  if a.addr16 then ea &&& 0xFFFF else ea

/-- Linear address of a memory reference. -/
def linear (c : Cpu) (a : Address) : UInt32 :=
  c.base a.seg + c.offset a

/-- Places of the state in the record that host code addresses, in bytes from its start. -/
structure Layout where
  regs : List Nat
  eip : Nat
  eflags : Nat
  segBase : List Nat
  cycles : Nat
  size : Nat
  deriving DecidableEq, Repr

/-- The fields lie in declaration order, each aligned to its size: eight registers, the instruction pointer and
the flags, six bases, six 16-bit selectors, the two cycle counts and four booleans. -/
def layout : Layout where
  regs := [0, 4, 8, 12, 16, 20, 24, 28]
  eip := 32
  eflags := 36
  segBase := [40, 44, 48, 52, 56, 60]
  cycles := 76
  size := 88

end Cpu

end Recompiler
