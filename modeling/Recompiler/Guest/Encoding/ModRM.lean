import Recompiler.Guest.Instruction
import Recompiler.Guest.Encoding.Reader

/-! Instruction prefixes, the operand byte that most opcodes carry, and the register or memory operand it
selects. -/

namespace Recompiler.Encoding

/-- The repeat prefixes. -/
inductive Repeat where
  | whileNotEqual
  | whileEqual
  deriving DecidableEq, Repr, Inhabited

/-- The prefixes in front of an opcode. Of several segment or repeat prefixes the last one counts. -/
structure Prefixes where
  operandSize : Bool := false
  addressSize : Bool := false
  lock : Bool := false
  segment : Option Seg := none
  rep : Option Repeat := none
  deriving DecidableEq, Repr, Inhabited

/-- The prefixes after one more byte, or nothing if that byte is not a prefix. -/
def Prefixes.add? (p : Prefixes) (b : UInt8) : Option Prefixes :=
  match b.toNat with
  | 0x26 => some { p with segment := some .es }
  | 0x2E => some { p with segment := some .cs }
  | 0x36 => some { p with segment := some .ss }
  | 0x3E => some { p with segment := some .ds }
  | 0x64 => some { p with segment := some .fs }
  | 0x65 => some { p with segment := some .gs }
  | 0x66 => some { p with operandSize := true }
  | 0x67 => some { p with addressSize := true }
  | 0xF0 => some { p with lock := true }
  | 0xF2 => some { p with rep := some .whileNotEqual }
  | 0xF3 => some { p with rep := some .whileEqual }
  | _ => none

/-- Reads prefixes up to the first opcode byte. An instruction has fewer than `fuel` prefixes when `fuel` is
`maxLength`, since the byte after so many would already be too long. -/
def Prefixes.read : (fuel : Nat) → Prefixes → Reader (Prefixes × UInt8)
  | 0, _ => fun _ _ => .error .tooLong
  | fuel + 1, p => do
    let b ← Reader.byte
    match p.add? b with
    | some p' => Prefixes.read fuel p'
    | none => pure (p, b)

/-- What the code segment and the prefixes decide for the rest of an instruction. -/
structure Context where
  /-- Instruction pointer of the first byte. -/
  ip : UInt32
  /-- Operand size, 16 or 32 bits. -/
  opWidth : Width
  /-- 32-bit addressing. -/
  addr32 : Bool
  segment : Option Seg
  rep : Option Repeat
  deriving DecidableEq, Repr, Inhabited

/-- A size prefix selects the size that is not the default of the code segment. -/
def Context.of (ip : UInt32) (code32 : Bool) (p : Prefixes) : Context where
  ip := ip
  opWidth := if code32 != p.operandSize then .w32 else .w16
  addr32 := code32 != p.addressSize
  segment := p.segment
  rep := p.rep

theorem mod_four_lt (n : Nat) : n % 4 < 4 :=
  Nat.mod_lt n (by decide)

theorem mod_eight_lt (n : Nat) : n % 8 < 8 :=
  Nat.mod_lt n (by decide)

/-- The two lowest bits of a number. -/
def twoBits (n : Nat) : Fin 4 :=
  ⟨n % 4, mod_four_lt n⟩

/-- The three lowest bits of a number. -/
def threeBits (n : Nat) : Fin 8 :=
  ⟨n % 8, mod_eight_lt n⟩

/-- The operand byte: `mode` 3 makes `rm` a register, any other mode a memory reference; `reg` is a second
register or extends the opcode. -/
structure ModRM where
  mode : Fin 4
  reg : Fin 8
  rm : Fin 8
  deriving DecidableEq, Repr, Inhabited

namespace ModRM

def ofByte (b : UInt8) : ModRM where
  mode := twoBits (b.toNat / 64)
  reg := threeBits (b.toNat / 8)
  rm := threeBits b.toNat

def isReg (m : ModRM) : Bool :=
  m.mode.val = 3

/-- The last six bits of the operand byte. -/
def low (m : ModRM) : Nat :=
  8 * m.reg.val + m.rm.val

def read : Reader ModRM := do
  let b ← Reader.byte
  pure (ofByte b)

end ModRM

/-- The register with number `n` at a width; byte registers 4 to 7 are the high bytes of the first four. -/
def regView (w : Width) (n : Fin 8) : Reg :=
  match w with
  | .w8 => ⟨.ofIndex (threeBits (n.val % 4)), .w8, 4 ≤ n.val⟩
  | w => ⟨.ofIndex n, w, false⟩

/-- References based on the stack registers use the stack segment, all others the data segment. -/
def defaultSegment : Option Gpr → Seg
  | some .esp | some .ebp => .ss
  | _ => .ds

/-- Base and index of the eight 16-bit addressing forms. -/
def shortForm : Fin 8 → Option Gpr × Option Gpr
  | 0 => (some .ebx, some .esi)
  | 1 => (some .ebx, some .edi)
  | 2 => (some .ebp, some .esi)
  | 3 => (some .ebp, some .edi)
  | 4 => (some .esi, none)
  | 5 => (some .edi, none)
  | 6 => (some .ebp, none)
  | 7 => (some .ebx, none)

namespace Context

def address (ctx : Context) (base index : Option Gpr) (scale : UInt8) (disp : UInt32) : Address where
  seg := ctx.segment.getD (defaultSegment base)
  base := base
  index := index
  scale := scale
  disp := disp
  addr16 := !ctx.addr32

/-- Displacement of a mode with a base register: none, a signed byte, or a full one. -/
def displacement (mode : Fin 4) (full : Width) : Reader UInt32 :=
  match mode with
  | 1 => Reader.signedWord .w8
  | 2 => Reader.word full
  | _ => pure 0

/-- 16-bit addressing; the displacement is kept modulo 64 KiB. -/
def address16 (ctx : Context) (m : ModRM) : Reader Address :=
  if m.mode.val = 0 ∧ m.rm.val = 6 then do
    let disp ← Reader.word .w16
    pure (ctx.address none none 1 disp)
  else do
    let (base, index) := shortForm m.rm
    let disp ← displacement m.mode .w16
    pure (ctx.address base index 1 (disp &&& 0xFFFF))

/-- 32-bit addressing, with a scale byte after `rm` 4. Index number 4 means no index, and base number 5 in
mode 0 a full displacement without a base. -/
def address32 (ctx : Context) (m : ModRM) : Reader Address :=
  if m.rm.val = 4 then do
    let sib ← ModRM.read
    let index := if sib.reg.val = 4 then none else some (Gpr.ofIndex sib.reg)
    let scale : UInt8 := match sib.mode with
      | 0 => 1
      | 1 => 2
      | 2 => 4
      | 3 => 8
    if m.mode.val = 0 ∧ sib.rm.val = 5 then do
      let disp ← Reader.word .w32
      pure (ctx.address none index scale disp)
    else do
      let disp ← displacement m.mode .w32
      pure (ctx.address (some (.ofIndex sib.rm)) index scale disp)
  else if m.mode.val = 0 ∧ m.rm.val = 5 then do
    let disp ← Reader.word .w32
    pure (ctx.address none none 1 disp)
  else do
    let disp ← displacement m.mode .w32
    pure (ctx.address (some (.ofIndex m.rm)) none 1 disp)

/-- The memory reference of an operand byte. -/
def memory (ctx : Context) (m : ModRM) : Reader Address :=
  if ctx.addr32 then ctx.address32 m else ctx.address16 m

/-- The register or memory operand of an operand byte. -/
def operand (ctx : Context) (m : ModRM) (w : Width) : Reader Operand :=
  if m.isReg then pure (.reg (regView w m.rm))
  else do
    let a ← ctx.memory m
    pure (.mem a)

end Context

/-- An immediate of `size` bytes for an operation of width `w`, sign-extended if it is shorter. -/
def immediate (w size : Width) : Reader Imm := do
  let offset ← Reader.position
  let value ← Reader.word size
  let value := if size.bytes < w.bytes then size.signExtend value else value
  pure { value, offset, size := size.bytes }

end Recompiler.Encoding
