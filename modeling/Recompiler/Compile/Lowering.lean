import Recompiler.Compile.Trace

/-! Micro-operations of a trace. Registers change only after all memory accesses of an instruction went through, so
that it can be run again after a fault; the instruction pointer is up to date whenever a helper is called. Cycles
are charged once, at the end, for the instructions completed. -/

namespace Recompiler

/-- What lowering needs to know of the place and the mode a block is compiled for. -/
structure LoweringContext where
  block : BlockId
  /-- Address of the link table entry of a slot. -/
  entry : Slot → UInt64
  code32 : Bool
  stack32 : Bool
  protectedMode : Bool

namespace LoweringContext

/-- Bits of the instruction pointer that count. -/
def ipMask (ctx : LoweringContext) : UInt32 :=
  if ctx.code32 then 0xFFFFFFFF else 0xFFFF

def stackReg (ctx : LoweringContext) : Reg :=
  ⟨.esp, if ctx.stack32 then .w32 else .w16, false⟩

end LoweringContext

namespace Lowering

/-- Charges instructions. -/
def charge (n : Nat) : List MicroOp :=
  if n = 0 then [] else [.act (.subCycles n.toUInt32)]

def link (ctx : LoweringContext) (slot : Slot) : MicroOp :=
  .link slot.index (ctx.entry slot)

/-- Linear address of a memory operand. -/
def address (addr : Address) (dst : Tmp) : List Action :=
  [.lea dst addr, .addSegBase dst addr.seg]

/-- Value of an immediate operand, read from memory if it is hot. -/
def immediate (hotImm : Option UInt32) (imm : Imm) (w : Width) (dst : Tmp) : List Action :=
  match hotImm with
  | some paddr =>
    let size := (Width.ofBytes? imm.size).getD w
    [.loadPhys dst paddr size (size.bytes < w.bytes)]
  | none => [.loadImm dst (imm.value &&& w.mask)]

/-- Reads an operand; the address of a memory operand stays in `addrTmp`. -/
def read (hotImm : Option UInt32) (op : Operand) (w : Width) (dst addrTmp : Tmp) : List Action :=
  match op with
  | .reg r => [.loadReg dst r]
  | .imm i => immediate hotImm i w dst
  | .mem a => address a addrTmp ++ [.load dst addrTmp w]

/-- Writes an operand; the address of a memory operand is in `addrTmp`. -/
def write (op : Operand) (w : Width) (src addrTmp : Tmp) : List Action :=
  match op with
  | .reg r => [.storeReg r src]
  | .mem _ => [.store addrTmp src w]
  | .imm _ => []

/-- Cuts a stack pointer to the stack's size. -/
def wrapStack (ctx : LoweringContext) (t : Tmp) : List Action :=
  if ctx.stack32 then [] else [.andImm t 0xFFFF]

/-- Pushes the first temporary. -/
def push (ctx : LoweringContext) (w : Width) : List Action :=
  [.loadReg .t2 ctx.stackReg, .addImm .t2 (0 - w.bytes.toUInt32)] ++ wrapStack ctx .t2 ++
    [.mov .t1 .t2, .addSegBase .t1 .ss, .store .t1 .t0 w, .storeReg ctx.stackReg .t2]

/-- Pops into the first temporary and releases `extra` further bytes. -/
def pop (ctx : LoweringContext) (w : Width) (extra : UInt32) : List Action :=
  [.loadReg .t2 ctx.stackReg, .mov .t1 .t2, .addSegBase .t1 .ss, .load .t0 .t1 w,
    .addImm .t2 (w.bytes.toUInt32 + extra)] ++ wrapStack ctx .t2 ++ [.storeReg ctx.stackReg .t2]

/-- Leaves for the interpreter at an instruction, charging those before it. -/
def bail (eip : UInt32) (count : Nat) (code : ExitCode) : List MicroOp :=
  charge count ++ [.act (.setEip eip), .exit code]

/-- Sets the instruction pointer before the first call of a helper. -/
def publish (eip : UInt32) : List MicroOp → List MicroOp
  | [] => []
  | op :: rest => if op.callsHelper then .act (.setEip eip) :: op :: rest else op :: publish eip rest

/-- Micro-operations of an instruction that follows `count` others. -/
def instruction (ctx : LoweringContext) (count : Nat) (f : Fetched) : List MicroOp :=
  let i := f.inst
  let w := i.width
  let next := i.nextIp ctx.code32
  let acts (as : List Action) : List MicroOp := as.map .act
  publish i.ip <|
    match i.kind with
    | .mov dst src =>
      let addr :=
        match dst with
        | .mem a => address a .t2
        | _ => []
      acts (addr ++ read f.hotImm src w .t0 .t2 ++ write dst w .t0 .t2)
    | .alu op dst src =>
      acts (read f.hotImm dst w .t0 .t2 ++ read f.hotImm src w .t1 .t2 ++ [.alu op w .t0 .t1] ++
        if op.writesResult then write dst w .t0 .t2 else [])
    | .unary op dst => acts (read f.hotImm dst w .t0 .t2 ++ [.unary op w .t0] ++ write dst w .t0 .t2)
    | .lea dst addr => acts [.lea .t0 addr, .storeReg dst .t0]
    | .push src => acts (read f.hotImm src w .t0 .t2 ++ push ctx w)
    | .pop dst => acts (pop ctx w 0 ++ [.storeReg dst .t0])
    | .jmp target => charge (count + 1) ++ [.act (.setEip (target &&& ctx.ipMask)), link ctx .first]
    | .jcc cond target =>
      charge (count + 1) ++
        [.jumpIf cond 0, .act (.setEip next), link ctx .first, .bind 0, .act (.setEip (target &&& ctx.ipMask)), link ctx .second]
    | .call target =>
      acts (.loadImm .t0 next :: push ctx w) ++ charge (count + 1) ++
        [.act (.setEip (target &&& ctx.ipMask)), link ctx .first]
    | .ret extra =>
      acts (pop ctx w extra.toUInt32 ++ [.storeEip .t0]) ++ charge (count + 1) ++ [.exit .normal]
    | .div signed src => acts (read f.hotImm src w .t0 .t2 ++ [.div w signed .t0])
    | .iret =>
      if ctx.protectedMode then bail i.ip count .opcode
      else acts [.iret w] ++ charge (count + 1) ++ [.exit .iret]
    | .nop => []
    | .fpu => acts [.interpret next]
    | .callback n =>
      charge (count + 1) ++ [.act (.setEip next), .act (.setCallback n.toUInt32), .exit .callback]
    | .other => bail i.ip count .opcode
    | .invalid => bail i.ip count .opcodeFull

/-- Micro-operations of instructions that follow `count` others. -/
def instructions (ctx : LoweringContext) : (count : Nat) → List Fetched → List MicroOp
  | _, [] => []
  | count, f :: rest => instruction ctx count f ++ instructions ctx (count + 1) rest

/-- How a trace that no instruction ends goes on. If nothing could be fetched at all the interpreter gets to run
into the fault. -/
def ending (ctx : LoweringContext) (count : Nat) : TraceEnd → List MicroOp
  | .terminal => []
  | .unfetchable eip =>
    if count = 0 then [.act (.setEip eip), .exit .opcode] else charge count ++ [.act (.setEip eip), link ctx .first]
  | .full eip => charge count ++ [.act (.setEip eip), link ctx .first]

/-- Micro-operations of a block. -/
def block (ctx : LoweringContext) (t : Trace) : List MicroOp :=
  .act (.enter ctx.block.toUInt32) :: (instructions ctx 0 t.insts ++ ending ctx t.insts.length t.stop)

/-- Number of labels that a block uses. -/
def labels (t : Trace) : Nat :=
  (t.insts.filter fun f => match f.inst.kind with | .jcc .. => true | _ => false).length

end Lowering

end Recompiler
