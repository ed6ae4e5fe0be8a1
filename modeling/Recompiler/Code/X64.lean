import Recompiler.Code.Assembly
import Recompiler.Code.Threaded
import Recompiler.Guest.Cpu

/-! Machine code for 64-bit x86 hosts. Register `r15` points at the guest processor, `r14` at the frame of the
run; the temporaries are `ebx`, `r12d` and `r13d`; `rax`, `rcx`, `rdx`, `rsi` and `rdi` are scratch and carry the
arguments of helper calls. Every way out of a block puts an exit code into `eax` and jumps to the shared
epilogue. Helpers are called by their number, which stands where a loader puts the address. -/

namespace Recompiler.X64

/-- Places of the fields of a frame that host code addresses. -/
structure FrameLayout where
  running : Nat
  pendingExit : Nat
  callback : Nat
  deriving DecidableEq, Repr

def frame : FrameLayout where
  running := 0
  pendingExit := 4
  callback := 8

/-- Bit of a helper's result that says that the block has to leave. -/
def helperAbort : Nat := 0x100000000

def rax : UInt8 := 0
def rcx : UInt8 := 1
def rdx : UInt8 := 2
def rsi : UInt8 := 6
def r15 : UInt8 := 15

/-- Host register of a temporary. -/
def tmpReg : Tmp → UInt8
  | .t0 => 3
  | .t1 => 12
  | .t2 => 13

/-- Byte with the high bits of two register numbers. -/
def rex (r b : UInt8) : UInt8 :=
  (0x40 : UInt8) ||| (((r >>> 3) &&& 1) <<< 2) ||| ((b >>> 3) &&& 1)

def modrm (mode reg rm : UInt8) : UInt8 :=
  (mode <<< 6) ||| ((reg &&& 7) <<< 3) ||| (rm &&& 7)

def u8 (b : UInt8) : Piece := .raw [b]
def imm (n : UInt32) : Piece := Threaded.u32 n
def imm64 (n : UInt64) : Piece := Threaded.u64 n

/-- An instruction on the field of the guest processor at `disp`. -/
def cpuField (opcode : List UInt8) (reg : UInt8) (disp : Nat) : List Piece :=
  [u8 (rex reg r15), .raw opcode, u8 (modrm 2 reg r15), imm disp.toUInt32]

def movImm (reg : UInt8) (value : UInt32) : List Piece :=
  (if 8 ≤ reg then [u8 (rex 0 reg)] else []) ++ [u8 (0xB8 + (reg &&& 7)), imm value]

def movReg (dst src : UInt8) : List Piece :=
  [u8 (rex src dst), u8 0x89, u8 (modrm 3 src dst)]

def jumpTo (target : Nat) : List Piece :=
  [u8 0xE9, .distance target]

/-- The helpers, by the number that stands for their address. -/
inductive Helper where
  | load
  | store
  | loadPhys
  | div
  | interpret
  | iret
  deriving DecidableEq, Repr

def Helper.number : Helper → UInt64
  | load => 0
  | store => 1
  | loadPhys => 2
  | div => 3
  | interpret => 4
  | iret => 5

/-- Calls a helper with the frame as first argument. -/
def call (h : Helper) : List Piece :=
  [.raw [0x4C, 0x89, 0xF7], .raw [0x48, 0xB8], imm64 h.number, .raw [0xFF, 0xD0]]

/-- Calls a helper and leaves with the pending exit code if it says so. -/
def callOrLeave (epilogue : Nat) (h : Helper) : List Piece :=
  call h ++
    [.raw [0x48, 0x0F, 0xBA, 0xE0, 0x20], .raw [0x73, 0x09],
      .raw [0x41, 0x8B, 0x46, frame.pendingExit.toUInt8]] ++
    jumpTo epilogue

/-- Takes the host flags of `mask` over into the guest flags, of which those of `clear` are cleared first. -/
def captureFlags (mask clear : UInt32) : List Piece :=
  [.raw [0x9C, 0x58, 0x25], imm mask] ++ cpuField [0x8B] rcx Cpu.layout.eflags ++
    [.raw [0x81, 0xE1], imm (~~~clear), .raw [0x09, 0xC1]] ++ cpuField [0x89] rcx Cpu.layout.eflags

/-- Operand size of 16-bit operations. -/
def widthMark : Width → List Piece
  | .w16 => [u8 0x66]
  | _ => []

/-- Opcode of the byte-wide or the wide form of an operation. -/
def sized (w : Width) (opcode : UInt8) : UInt8 :=
  if w = .w8 then opcode - 1 else opcode

/-- Place of a general register in the processor. -/
def gprField (g : Gpr) : Nat :=
  Cpu.layout.regs.getD g.index 0

def regField (r : Reg) : Nat :=
  gprField r.gpr + if r.high8 then 1 else 0

def segBaseField (s : Seg) : Nat :=
  Cpu.layout.segBase.getD s.index 0

/-- Number of low zero bits of a byte; eight for zero. -/
def trailingZeros (b : UInt8) : Nat :=
  ((List.range 8).find? fun i => b.toNat.testBit i).getD 8

def aluOpcode : AluOp → UInt8
  | .add => 0x01
  | .or => 0x09
  | .adc => 0x11
  | .sbb => 0x19
  | .and => 0x21
  | .sub => 0x29
  | .xor => 0x31
  | .cmp => 0x39
  | .test => 0x85

/-- Opcode and its extension. -/
def unaryOpcode : UnaryOp → UInt8 × UInt8
  | .inc => (0xFF, 0)
  | .dec => (0xFF, 1)
  | .not => (0xF7, 2)
  | .neg => (0xF7, 3)

def andImm (r : UInt8) (value : UInt32) : List Piece :=
  [.raw [rex 0 r, 0x81, modrm 3 4 r], imm value]

/-- Sums the displacement and the scaled registers, and cuts a 16-bit address. -/
def lea (r : UInt8) (addr : Address) : List Piece :=
  let base :=
    match addr.base with
    | some g => cpuField [0x03] r (gprField g)
    | none => []
  let index :=
    match addr.index with
    | some g =>
      let shift := trailingZeros addr.scale
      cpuField [0x8B] rax (gprField g) ++
        (if shift = 0 then [] else [.raw [0xC1, modrm 3 4 rax, shift.toUInt8]]) ++
        [.raw [rex rax r, 0x01, modrm 3 rax r]]
    | none => []
  movImm r addr.disp ++ base ++ index ++ (if addr.addr16 then andImm r 0xFFFF else [])

/-- Operations that read the carry load it from the guest flags first. -/
def alu (op : AluOp) (w : Width) (d s : UInt8) : List Piece :=
  (if op.readsCarry then cpuField [0x0F, 0xBA] 4 Cpu.layout.eflags ++ [u8 0] else []) ++
    widthMark w ++ [.raw [rex s d, sized w (aluOpcode op), modrm 3 s d]] ++
    captureFlags (if op.isLogic then Flag.status &&& ~~~Flag.af else Flag.status) Flag.status

/-- Flags of a one-operand operation: increments keep the carry, complement keeps all. -/
def unaryFlags : UnaryOp → List Piece
  | .inc | .dec => captureFlags (Flag.status &&& ~~~Flag.cf) (Flag.status &&& ~~~Flag.cf)
  | .neg => captureFlags Flag.status Flag.status
  | .not => []

def unary (op : UnaryOp) (w : Width) (d : UInt8) : List Piece :=
  let (opcode, extension) := unaryOpcode op
  widthMark w ++ [.raw [rex 0 d, sized w opcode, modrm 3 extension d]] ++ unaryFlags op

def exit (epilogue : Nat) (code : ExitCode) : List Piece :=
  movImm rax code.raw ++ jumpTo epilogue

/-- Stores a constant into a field of the frame. -/
def frameField (disp : Nat) (value : UInt32) : List Piece :=
  [.raw [0x41, 0xC7, 0x86], imm disp.toUInt32, imm value]

/-- Zero-extending load of a register view. -/
def loadOpcode : Width → List UInt8
  | .w8 => [0x0F, 0xB6]
  | .w16 => [0x0F, 0xB7]
  | .w32 => [0x8B]

def action (epilogue : Nat) : Action → List Piece
  | .enter block =>
    frameField frame.running block ++
      [.raw [0x41, 0x83, 0xBF], imm Cpu.layout.cycles.toUInt32, u8 0, .raw [0x7F, 0x0A]] ++
      exit epilogue .cycles
  | .loadImm dst value => movImm (tmpReg dst) value
  | .loadPhys dst paddr w signExtend =>
    movImm rsi paddr ++ movImm rdx (Threaded.widthFlag w signExtend).toUInt32 ++ call .loadPhys ++
      movReg (tmpReg dst) rax
  | .loadReg dst r => cpuField (loadOpcode r.width) (tmpReg dst) (regField r)
  | .storeReg r src => widthMark r.width ++ cpuField [sized r.width 0x89] (tmpReg src) (regField r)
  | .mov dst src => movReg (tmpReg dst) (tmpReg src)
  | .addImm dst value => [.raw [rex 0 (tmpReg dst), 0x81, modrm 3 0 (tmpReg dst)], imm value]
  | .andImm dst value => andImm (tmpReg dst) value
  | .lea dst addr => lea (tmpReg dst) addr
  | .addSegBase dst seg => cpuField [0x03] (tmpReg dst) (segBaseField seg)
  | .alu op w dst src => alu op w (tmpReg dst) (tmpReg src)
  | .unary op w dst => unary op w (tmpReg dst)
  | .load dst addr w =>
    movReg rsi (tmpReg addr) ++ movImm rdx w.bytes.toUInt32 ++ callOrLeave epilogue .load ++
      movReg (tmpReg dst) rax
  | .store addr src w =>
    movReg rsi (tmpReg addr) ++ movReg rdx (tmpReg src) ++ movImm rcx w.bytes.toUInt32 ++
      callOrLeave epilogue .store
  | .div w signed divisor =>
    movReg rsi (tmpReg divisor) ++ movImm rdx (Threaded.widthFlag w signed).toUInt32 ++
      callOrLeave epilogue .div
  | .interpret nextEip => movImm rsi nextEip ++ callOrLeave epilogue .interpret
  | .iret w => movImm rsi w.bytes.toUInt32 ++ callOrLeave epilogue .iret
  | .subCycles n => cpuField [0x81] 5 Cpu.layout.cycles ++ [imm n]
  | .setEip eip => cpuField [0xC7] 0 Cpu.layout.eip ++ [imm eip]
  | .storeEip src => cpuField [0x89] (tmpReg src) Cpu.layout.eip
  | .setCallback n => frameField frame.callback n

def pieces (epilogue : Nat) : MicroOp → List Piece
  | .act a => action epilogue a
  | .jumpIf cond label =>
    cpuField [0x8B] rax Cpu.layout.eflags ++
      [u8 0x25, imm Flag.status, .raw [0x50, 0x9D], .raw [0x0F, 0x80 + cond.code.toUInt8], .label label]
  | .bind _ => []
  | .exit code => exit epilogue code
  | .link _ entry => [.raw [0x48, 0xB8], imm64 entry, .raw [0xFF, 0x20]]

/-- A label field holds the distance from its end to the label. -/
def encoding (epilogue : Nat) : HostEncoding where
  pieces := pieces epilogue
  labelSize := 4
  labelField _ field target := distance32 (field + 4) target

/-- Entry from outside: saves registers, aligns the stack, takes over the processor and the frame, and jumps to
the block. -/
def trampoline : List Piece :=
  [.raw [0x53, 0x55, 0x41, 0x54, 0x41, 0x55, 0x41, 0x56, 0x41, 0x57], .raw [0x48, 0x83, 0xEC, 0x08],
    .raw [0x49, 0x89, 0xF7, 0x49, 0x89, 0xD6, 0xFF, 0xE7]]

/-- Undoes what the trampoline did and returns. -/
def epilogue : List Piece :=
  [.raw [0x48, 0x83, 0xC4, 0x08], .raw [0x41, 0x5F, 0x41, 0x5E, 0x41, 0x5D, 0x41, 0x5C],
    .raw [0x5D, 0x5B, 0xC3]]

end Recompiler.X64
