import Recompiler.Guest.Instruction

/-! The micro-operations that blocks are built from. They work on three 32-bit temporaries, the guest processor
and a few helper calls. An operation narrower than 32 bits defines only the low bits of its result, and what
follows reads the temporary at the same width. -/

namespace Recompiler

/-- A temporary. -/
inductive Tmp where
  | t0
  | t1
  | t2
  deriving DecidableEq, Repr, Inhabited

namespace Tmp

def index : Tmp → Fin 3
  | t0 => 0
  | t1 => 1
  | t2 => 2

/-- The temporary with a given number. -/
def ofNat? : Nat → Option Tmp
  | 0 => some t0
  | 1 => some t1
  | 2 => some t2
  | _ => none

@[simp] theorem ofNat?_index (t : Tmp) : ofNat? t.index = some t := by
  cases t <;> rfl

end Tmp

/-- A jump target inside one block. -/
abbrev Label := Nat

/-- Why a block hands control back. -/
inductive ExitCode where
  /-- Continue at the guest's instruction pointer. -/
  | normal
  /-- The cycle budget is used up. -/
  | cycles
  /-- Left through link slot 0, which has no target yet. -/
  | link1
  /-- Left through link slot 1, which has no target yet. -/
  | link2
  /-- The next instruction is for the interpreter. -/
  | opcode
  /-- The next instruction is for the interpreter's full decoder. -/
  | opcodeFull
  /-- Returned from an interrupt. -/
  | iret
  /-- A platform callback is requested. -/
  | callback
  /-- A store would have hit the running block, and was not performed. -/
  | smcBlock
  deriving DecidableEq, Repr, Inhabited

namespace ExitCode

/-- Number of an exit code in host code. -/
def raw : ExitCode → UInt32
  | normal => 0
  | cycles => 1
  | link1 => 2
  | link2 => 3
  | opcode => 4
  | opcodeFull => 5
  | iret => 6
  | callback => 7
  | smcBlock => 8

/-- The exit code with a given number. -/
def ofRaw? (n : UInt32) : Option ExitCode :=
  match n.toNat with
  | 0 => some normal
  | 1 => some cycles
  | 2 => some link1
  | 3 => some link2
  | 4 => some opcode
  | 5 => some opcodeFull
  | 6 => some iret
  | 7 => some callback
  | 8 => some smcBlock
  | _ => none

@[simp] theorem ofRaw?_raw (c : ExitCode) : ofRaw? c.raw = some c := by
  cases c <;> rfl

/-- The exit code of a link slot without a target. -/
def ofSlot (slot : Nat) : ExitCode :=
  if slot = 0 then link1 else link2

end ExitCode

/-- What a micro-operation does to the machine, control flow apart. -/
inductive Action where
  /-- Block entry: makes `block` the running block, and leaves if the budget is used up. -/
  | enter (block : UInt32)
  | loadImm (dst : Tmp) (value : UInt32)
  /-- Reads an immediate from guest physical memory. -/
  | loadPhys (dst : Tmp) (paddr : UInt32) (width : Width) (signExtend : Bool)
  /-- Zero-extending register read. -/
  | loadReg (dst : Tmp) (reg : Reg)
  | storeReg (reg : Reg) (src : Tmp)
  | mov (dst src : Tmp)
  /-- 32-bit sum without flags. -/
  | addImm (dst : Tmp) (value : UInt32)
  | andImm (dst : Tmp) (value : UInt32)
  /-- Offset of a memory reference in its segment. -/
  | lea (dst : Tmp) (addr : Address)
  | addSegBase (dst : Tmp) (seg : Seg)
  /-- `dst op src` with guest flags; `cmp` and `test` leave `dst` alone. -/
  | alu (op : AluOp) (width : Width) (dst src : Tmp)
  | unary (op : UnaryOp) (width : Width) (dst : Tmp)
  /-- Guest load from a linear address. -/
  | load (dst addr : Tmp) (width : Width)
  /-- Guest store to a linear address, checked against the code page monitors. -/
  | store (addr src : Tmp) (width : Width)
  | div (width : Width) (signed : Bool) (divisor : Tmp)
  /-- Runs the current instruction in the interpreter; the block goes on if that ends at `nextEip`. -/
  | interpret (nextEip : UInt32)
  /-- Real-mode interrupt return. -/
  | iret (width : Width)
  | subCycles (n : UInt32)
  | setEip (eip : UInt32)
  | storeEip (src : Tmp)
  | setCallback (n : UInt32)
  deriving DecidableEq, Repr, Inhabited

/-- Whether an action calls out of the block, and so needs the guest's instruction pointer up to date. -/
def Action.callsHelper : Action → Bool
  | loadPhys .. | load .. | store .. | div .. | interpret .. | iret .. => true
  | _ => false

/-- A micro-operation: an action or control flow. -/
inductive MicroOp where
  | act (a : Action)
  | jumpIf (cond : Cond) (label : Label)
  | bind (label : Label)
  | exit (code : ExitCode)
  /-- Leaves through a link slot; `entry` is the address of the link table entry. -/
  | link (slot : Nat) (entry : UInt64)
  deriving DecidableEq, Repr, Inhabited

def MicroOp.callsHelper : MicroOp → Bool
  | act a => a.callsHelper
  | _ => false

instance : Coe Action MicroOp := ⟨.act⟩

end Recompiler
