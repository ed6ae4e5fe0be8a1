import Recompiler.Guest.Encoding.ModRM

/-! The shapes in which instructions are encoded after their opcode. An opcode map only chooses a shape; all
reading of operand bytes happens here. -/

namespace Recompiler.Encoding

/-- What the bytes of an instruction turned out to be. A defined instruction accepts a lock prefix only if
`lockable`; without a lowering it is of the class `other`. -/
inductive Decoded where
  | undefined
  | defined (lockable : Bool) (lowering : Option (Kind × Width))
  deriving DecidableEq, Repr, Inhabited

/-- The two-operand instructions that have a lowering. -/
inductive Binary where
  | mov
  | alu (op : AluOp)
  deriving DecidableEq, Repr, Inhabited

def Binary.kind : Binary → Operand → Operand → Kind
  | mov, dst, src => .mov dst src
  | alu op, dst, src => .alu op dst src

/-- A lock prefix is accepted on a memory destination that is read, modified and written. -/
def Binary.lockable : Binary → Operand → Bool
  | alu op, .mem _ => op.writesResult
  | _, _ => false

/-- What follows an operand byte. -/
inductive Entry where
  /-- Undefined, whatever follows. -/
  | undefined
  /-- Undefined, with `n` bytes that still belong to it. -/
  | undefinedAfter (n : Nat)
  /-- Undefined, with an operand that still belongs to it. -/
  | undefinedOperand
  /-- Nothing: the operand byte names registers only, whatever its mode. -/
  | fixed
  /-- An operand and `n` further bytes of an instruction without a lowering. -/
  | operand (lockable : Bool) (n : Nat)
  /-- The operand of a no-operation. -/
  | nop
  /-- The operand of a floating-point escape. -/
  | fpu
  /-- Destination `rm`, source `reg`. -/
  | store (f : Binary) (w : Width)
  /-- Destination `reg`, source `rm`. -/
  | load (f : Binary) (w : Width)
  /-- Destination `rm`, source an immediate of width `size`. -/
  | immediate (f : Binary) (w size : Width)
  | unary (op : UnaryOp) (w : Width)
  | div (signed : Bool) (w : Width)
  | lea
  | push
  | pop

/-- Reads what follows an operand byte. -/
def Entry.read (ctx : Context) (m : ModRM) : Entry → Reader Decoded
  | undefined => pure .undefined
  | undefinedAfter n => do
    Reader.skip n
    pure .undefined
  | undefinedOperand => do
    let _ ← ctx.operand m ctx.opWidth
    pure .undefined
  | fixed => pure (.defined false none)
  | operand lockable n => do
    let _ ← ctx.operand m ctx.opWidth
    Reader.skip n
    pure (.defined (lockable && !m.isReg) none)
  | nop => do
    let _ ← ctx.operand m ctx.opWidth
    pure (.defined false (some (.nop, ctx.opWidth)))
  | fpu => do
    let _ ← ctx.operand m ctx.opWidth
    pure (.defined false (some (.fpu, ctx.opWidth)))
  | store f w => do
    let dst ← ctx.operand m w
    pure (.defined (f.lockable dst) (some (f.kind dst (.reg (regView w m.reg)), w)))
  | load f w => do
    let src ← ctx.operand m w
    pure (.defined false (some (f.kind (.reg (regView w m.reg)) src, w)))
  | immediate f w size => do
    let dst ← ctx.operand m w
    let imm ← Encoding.immediate w size
    pure (.defined (f.lockable dst) (some (f.kind dst (.imm imm), w)))
  | unary op w => do
    let dst ← ctx.operand m w
    pure (.defined (!m.isReg) (some (.unary op dst, w)))
  | div signed w => do
    let src ← ctx.operand m w
    pure (.defined false (some (.div signed src, w)))
  | lea => do
    if m.isReg then
      pure .undefined
    else do
      let addr ← ctx.memory m
      pure (.defined false (some (.lea (regView ctx.opWidth m.reg) addr, ctx.opWidth)))
  | push => do
    match ← ctx.operand m ctx.opWidth with
    | .reg r => pure (.defined false (some (.push (.reg r), ctx.opWidth)))
    | _ => pure (.defined false none)
  | pop => do
    match ← ctx.operand m ctx.opWidth with
    | .reg r => pure (.defined false (some (.pop r, ctx.opWidth)))
    | _ => pure (.defined false none)

/-- What follows an opcode. -/
inductive Form where
  /-- Nothing. -/
  | bare
  /-- `n` operand bytes of an instruction without a lowering. -/
  | trailing (n : Nat)
  /-- A far pointer: an offset of operand size and a selector. -/
  | farPointer
  /-- An operand byte, which selects the rest. -/
  | modrm (select : ModRM → Entry)
  /-- Destination the accumulator, source an immediate. -/
  | accumulator (op : AluOp) (w : Width)
  /-- A move between the accumulator and an absolute offset. -/
  | absolute (w : Width) (toMemory : Bool)
  /-- Destination register `n`, source an immediate. -/
  | movImm (w : Width) (n : Fin 8)
  | unaryReg (op : UnaryOp) (n : Fin 8)
  | pushReg (n : Fin 8)
  | popReg (n : Fin 8)
  /-- A pushed immediate of width `size`. -/
  | pushImm (size : Width)
  /-- Control transfers with a displacement of width `size`. -/
  | jcc (cond : Cond) (size : Width)
  | jmp (size : Width)
  | call (size : Width)
  | ret
  | retImm
  | iret
  /-- A no-operation, or a spin hint with the `whileEqual` prefix. -/
  | nop

/-- Target of a relative transfer whose displacement ends the instruction. -/
def Context.relative (ctx : Context) (size : Width) : Reader UInt32 := do
  let disp ← Reader.signedWord size
  let len ← Reader.position
  pure ((ctx.ip + len.toUInt32 + disp) &&& ctx.opWidth.mask)

/-- Reads what follows an opcode. -/
def Form.read (ctx : Context) : Form → Reader Decoded
  | bare => pure (.defined false none)
  | trailing n => do
    Reader.skip n
    pure (.defined false none)
  | farPointer => do
    Reader.skip (ctx.opWidth.bytes + 2)
    pure (.defined false none)
  | modrm select => do
    let m ← ModRM.read
    (select m).read ctx m
  | accumulator op w => do
    let imm ← immediate w w
    pure (.defined false (some (.alu op (.reg ⟨.eax, w, false⟩) (.imm imm), w)))
  | absolute w toMemory => do
    let disp ← Reader.word (if ctx.addr32 then .w32 else .w16)
    let acc := Operand.reg ⟨.eax, w, false⟩
    let place := Operand.mem (ctx.address none none 1 disp)
    pure (.defined false (some (if toMemory then .mov place acc else .mov acc place, w)))
  | movImm w n => do
    let imm ← immediate w w
    pure (.defined false (some (.mov (.reg (regView w n)) (.imm imm), w)))
  | unaryReg op n => pure (.defined false (some (.unary op (.reg (regView ctx.opWidth n)), ctx.opWidth)))
  | pushReg n => pure (.defined false (some (.push (.reg (regView ctx.opWidth n)), ctx.opWidth)))
  | popReg n => pure (.defined false (some (.pop (regView ctx.opWidth n), ctx.opWidth)))
  | pushImm size => do
    let imm ← immediate ctx.opWidth size
    pure (.defined false (some (.push (.imm imm), ctx.opWidth)))
  | jcc cond size => do
    let target ← ctx.relative size
    pure (.defined false (some (.jcc cond target, ctx.opWidth)))
  | jmp size => do
    let target ← ctx.relative size
    pure (.defined false (some (.jmp target, ctx.opWidth)))
  | call size => do
    let target ← ctx.relative size
    pure (.defined false (some (.call target, ctx.opWidth)))
  | ret => pure (.defined false (some (.ret 0, ctx.opWidth)))
  | retImm => do
    let extra ← Reader.word .w16
    pure (.defined false (some (.ret extra.toUInt16, ctx.opWidth)))
  | iret => pure (.defined false (some (.iret, ctx.opWidth)))
  | nop =>
    if ctx.rep = some .whileEqual then pure (.defined false none)
    else pure (.defined false (some (.nop, ctx.opWidth)))

end Recompiler.Encoding
