import Recompiler.Code.Threaded

/-! Reading threaded code back. Operands are checked where an operation could not be performed otherwise: numbers of
temporaries, registers, segments, conditions and operations, and the widths of registers and memory accesses. The
widths that stand beside a flag are not; there every byte but one and two means four bytes. -/

namespace Recompiler.Threaded

/-- An operation of threaded code. Jump targets and link entries are host addresses. -/
inductive Step where
  | act (a : Action)
  | jumpIf (cond : Cond) (target : Nat)
  | exit (raw : UInt32)
  | link (slot : UInt8) (entry : Nat)
  deriving DecidableEq, Repr, Inhabited

/-- Size of the longest operation. -/
def maxLength : Nat := 10

/-- Reads operands off a list of bytes. -/
abbrev Operands := StateT (List UInt8) Option

namespace Operands

def byte : Operands UInt8
  | [] => none
  | b :: rest => some (b, rest)

/-- A little-endian number of `n` bytes. -/
def number : Nat → Operands Nat
  | 0 => pure 0
  | n + 1 => do
    let low ← byte
    let high ← number n
    pure (low.toNat + 256 * high)

def u32 : Operands UInt32 := do
  pure (← number 4).toUInt32

def tmp : Operands Tmp := do
  StateT.lift (Tmp.ofNat? (← byte).toNat)

def width : Operands Width := do
  StateT.lift (Width.ofBytes? (← byte).toNat)

def gpr : Operands Gpr := do
  StateT.lift (Gpr.ofNat? (← byte).toNat)

def optGpr : Operands (Option Gpr) := do
  let b ← byte
  if b = 0xFF then pure none else StateT.lift ((Gpr.ofNat? b.toNat).map some)

def bool : Operands Bool := do
  pure ((← byte) != 0)

def reg : Operands Reg := do
  let gpr ← gpr
  let width ← width
  let high8 ← bool
  pure { gpr, width, high8 }

/-- A width that is not checked. -/
def looseWidth (n : Nat) : Width :=
  match n % 256 with
  | 1 => .w8
  | 2 => .w16
  | _ => .w32

/-- A width and a flag in two bytes. -/
def widthFlag : Operands (Width × Bool) := do
  let n ← number 2
  pure (looseWidth n, n / 256 != 0)

/-- The operation with a given opcode. -/
def step : (opcode : Nat) → Operands Step
  | 1 => do pure (.act (.enter (← u32)))
  | 2 => do pure (.act (.loadImm (← tmp) (← u32)))
  | 3 => do
    let dst ← tmp
    let paddr ← u32
    let (w, signExtend) ← widthFlag
    pure (.act (.loadPhys dst paddr w signExtend))
  | 4 => do pure (.act (.loadReg (← tmp) (← reg)))
  | 5 => do
    let src ← tmp
    pure (.act (.storeReg (← reg) src))
  | 6 => do pure (.act (.mov (← tmp) (← tmp)))
  | 7 => do pure (.act (.addImm (← tmp) (← u32)))
  | 8 => do pure (.act (.andImm (← tmp) (← u32)))
  | 9 => do
    let dst ← tmp
    let base ← optGpr
    let index ← optGpr
    let scale ← byte
    let addr16 ← bool
    let disp ← u32
    pure (.act (.lea dst { seg := .ds, base, index, scale, disp, addr16 }))
  | 10 => do
    let dst ← tmp
    pure (.act (.addSegBase dst (← StateT.lift (Seg.ofNat? (← byte).toNat))))
  | 11 => do
    let op ← StateT.lift (AluOp.ofNat? (← byte).toNat)
    pure (.act (.alu op (← width) (← tmp) (← tmp)))
  | 12 => do
    let op ← StateT.lift (UnaryOp.ofNat? (← byte).toNat)
    pure (.act (.unary op (← width) (← tmp)))
  | 13 => do pure (.act (.load (← tmp) (← tmp) (← width)))
  | 14 => do pure (.act (.store (← tmp) (← tmp) (← width)))
  | 15 => do
    let divisor ← tmp
    let (w, signed) ← widthFlag
    pure (.act (.div w signed divisor))
  | 16 => do pure (.act (.interpret (← u32)))
  | 17 => do pure (.act (.iret (looseWidth (← byte).toNat)))
  | 18 => do pure (.act (.subCycles (← u32)))
  | 19 => do pure (.act (.setEip (← u32)))
  | 20 => do pure (.act (.storeEip (← tmp)))
  | 21 => do pure (.act (.setCallback (← u32)))
  | 22 => do
    let cond ← StateT.lift (Cond.ofCode? (← byte).toNat)
    pure (.jumpIf cond (← number 8))
  | 23 => do pure (.exit (← u32))
  | 24 => do pure (.link (← byte) (← number 8))
  | _ => StateT.lift none

end Operands

/-- Reads one operation, and what follows it. -/
def decode (bytes : List UInt8) : Option (Step × List UInt8) := do
  let (opcode, rest) ← Operands.byte bytes
  Operands.step opcode.toNat rest

/-- The operation at an offset, and the offset of the next one. -/
def fetch (code : ByteArray) (pc : Nat) : Option (Step × Nat) := do
  let window := slice code pc (pc + maxLength)
  let (step, rest) ← decode window
  some (step, pc + (window.length - rest.length))

end Recompiler.Threaded
