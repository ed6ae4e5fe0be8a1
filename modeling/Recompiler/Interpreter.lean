import Recompiler.Guest.Division
import Recompiler.Guest.Encoding.Decode
import Recompiler.Platform

/-! The reference interpreter: executes guest instructions one by one. Exceptions are recorded and delivered by a
jump to a fixed handler. -/

namespace Recompiler

/-- A recorded exception. -/
structure Raised where
  vector : UInt8
  errorCode : Option UInt32
  /-- Instruction pointer when it was raised. -/
  eip : UInt32
  deriving DecidableEq, Repr, Inhabited

structure Interpreter where
  /-- Exceptions, oldest first. -/
  raised : Array Raised := #[]
  /-- Instructions executed. -/
  steps : Nat := 0
  fullRuns : Nat := 0
  halted : Bool := false
  irq : Bool := false
  deriving DecidableEq, Repr, Inhabited

namespace Interpreter

/-- Where every exception is delivered to. -/
def handler : UInt32 := 0xF00

/-- What stops an instruction. -/
inductive Trap where
  | page (fault : PageFault)
  | exception (vector : UInt8)
  /-- The instruction is outside the interpreter's subset. -/
  | unsupported
  deriving DecidableEq, Repr

/-- How an instruction ended. -/
inductive Outcome where
  | next
  | callback (n : UInt32)
  | halt
  deriving DecidableEq, Repr

/-- Execution of an instruction on the processor and memory; a trap keeps what was done before it. -/
abbrev Exec (κ : Type) := ExceptT Trap (StateM (Cpu × Bus κ))

namespace Exec

variable {κ : Type}

def cpu : Exec κ Cpu := fun (cpu, bus) => (.ok cpu, cpu, bus)

def modifyCpu (f : Cpu → Cpu) : Exec κ Unit := fun (cpu, bus) => (.ok (), f cpu, bus)

def setEip (eip : UInt32) : Exec κ Unit := modifyCpu fun c => { c with eip }

def load (linear : UInt32) (w : Width) : Exec κ UInt32 := fun (cpu, bus) =>
  match bus.mem.loadLinear linear w with
  | .ok value => (.ok value, cpu, bus)
  | .error fault => (.error (.page fault), cpu, bus)

def store [Watcher κ] (linear : UInt32) (w : Width) (value : UInt32) : Exec κ Unit := fun (cpu, bus) =>
  match bus.write linear w value with
  | (none, bus) => (.ok (), cpu, bus)
  | (some fault, bus) => (.error (.page fault), cpu, bus)

/-- Value of an operand. -/
def read (op : Operand) (w : Width) : Exec κ UInt32 := do
  let c ← cpu
  match op with
  | .reg r => pure (c.reg r)
  | .imm i => pure (i.value &&& w.mask)
  | .mem a => load (c.linear a) w

def write [Watcher κ] (op : Operand) (w : Width) (value : UInt32) : Exec κ Unit := do
  match op with
  | .reg r => modifyCpu (·.setReg r value)
  | .mem a => store ((← cpu).linear a) w value
  | .imm _ => throw .unsupported

/-- Pushes a value; the stack pointer moves after the store. -/
def push [Watcher κ] (w : Width) (value : UInt32) : Exec κ Unit := do
  let c ← cpu
  let sp := (c.reg c.stackReg - w.bytes.toUInt32) &&& c.stackWidth.mask
  store (c.base .ss + sp) w value
  modifyCpu (·.setReg c.stackReg sp)

/-- Reads the value at a stack pointer, and gives the pointer behind it. -/
def popAt (sp : UInt32) (w : Width) : Exec κ (UInt32 × UInt32) := do
  let c ← cpu
  let value ← load (c.base .ss + sp) w
  pure (value, (sp + w.bytes.toUInt32) &&& c.stackWidth.mask)

def stackPointer : Exec κ UInt32 := do
  let c ← cpu
  pure (c.reg c.stackReg)

def setStackPointer (sp : UInt32) : Exec κ Unit :=
  modifyCpu fun c => c.setReg c.stackReg sp

end Exec

/-- Divides, after a look at the divisor; nothing if the division is refused. -/
def divide (c : Cpu) (w : Width) (signed : Bool) (divisor : UInt32) : Option Cpu :=
  let dividend := c.dividend w
  let divisor := divisor &&& w.mask
  if divisor = 0 then none
  else if signed then
    let n := w.signedDividend dividend
    let d := w.signedDivisor divisor
    match checkedDiv n d, checkedRem n d with
    | some q, some r =>
      if q < -w.signedLimit ∨ w.signedLimit ≤ q then none
      else some (c.setQuotRem w q.toUInt64.toUInt32 r.toUInt64.toUInt32)
    | _, _ => none
  else
    let q := dividend / divisor.toUInt64
    if w.mask.toUInt64 < q then none
    else some (c.setQuotRem w q.toUInt32 (dividend % divisor.toUInt64).toUInt32)

open Exec in
/-- Executes an instruction whose first byte is `first`. -/
def execute {κ : Type} [Watcher κ] (first : UInt8) (i : Instruction) : Exec κ Outcome := do
  let c ← cpu
  let next := i.nextIp c.codeBig
  let w := i.width
  match i.kind with
  | .mov dst src =>
    write dst w (← read src w)
    setEip next
    pure .next
  | .alu op dst src =>
    let a ← read dst w
    let b ← read src w
    let (result, eflags) := Arithmetic.alu op w a b c.eflags
    if op.writesResult then write dst w result
    modifyCpu fun c => { c with eflags, eip := next }
    pure .next
  | .unary op dst =>
    let a ← read dst w
    let (result, eflags) := Arithmetic.unary op w a c.eflags
    write dst w result
    modifyCpu fun c => { c with eflags, eip := next }
    pure .next
  | .lea dst addr =>
    modifyCpu (·.setReg dst (c.offset addr))
    setEip next
    pure .next
  | .push src =>
    push w (← read src w)
    setEip next
    pure .next
  | .pop dst =>
    let (value, sp) ← popAt (← stackPointer) w
    setStackPointer sp
    modifyCpu (·.setReg dst value)
    setEip next
    pure .next
  | .jmp target =>
    setEip (target &&& c.ipMask)
    pure .next
  | .jcc cond target =>
    setEip (if cond.holds c.eflags then target &&& c.ipMask else next)
    pure .next
  | .call target =>
    push w next
    setEip (target &&& c.ipMask)
    pure .next
  | .ret extra =>
    let (ip, sp) ← popAt (← stackPointer) w
    setStackPointer (sp + extra.toUInt32)
    setEip ip
    pure .next
  | .div signed src =>
    let divisor ← read src w
    match divide (← cpu) w signed divisor with
    | some c =>
      modifyCpu fun _ => c
      setEip next
      pure .next
    | none => throw (.exception divideError)
  | .iret =>
    let (ip, sp) ← popAt (← stackPointer) w
    let (cs, sp) ← popAt sp w
    let (flags, sp) ← popAt sp w
    let mask := Flag.iretMask w
    setStackPointer sp
    modifyCpu (·.loadRealSegment .cs cs.toUInt16)
    modifyCpu fun c =>
      { c with eflags := (c.eflags &&& ~~~mask) ||| (flags &&& mask) ||| Flag.reserved1, eip := ip &&& w.mask }
    pure .next
  | .nop | .fpu =>
    setEip next
    pure .next
  | .callback n =>
    setEip next
    pure (.callback n.toUInt32)
  | .other =>
    match first.toNat with
    | 0xF4 =>
      setEip next
      pure .halt
    | 0xF8 =>
      modifyCpu (·.setFlag Flag.cf false)
      setEip next
      pure .next
    | 0xF9 =>
      modifyCpu (·.setFlag Flag.cf true)
      setEip next
      pure .next
    | 0xFA =>
      modifyCpu (·.setFlag Flag.ief false)
      setEip next
      pure .next
    | 0xFB =>
      modifyCpu (·.setFlag Flag.ief true)
      setEip next
      pure .next
    | _ => throw .unsupported
  | .invalid => throw (.exception 6)

/-- Instruction bytes from an instruction pointer on, which wraps at the code size: `n` of them, or those before
the first fault. -/
def fetch (c : Cpu) (mem : Memory) : (n : Nat) → (eip : UInt32) → List UInt8 × Option PageFault
  | 0, _ => ([], none)
  | n + 1, eip =>
    match mem.resolve (c.base .cs + (eip &&& c.ipMask)) false with
    | .error fault => ([], some fault)
    | .ok paddr =>
      let (bytes, fault) := fetch c mem n (eip + 1)
      (mem.byte paddr :: bytes, fault)

/-- Records an exception and jumps to the handler. -/
def raiseException (vector : UInt8) (errorCode : Option UInt32) (c : Cpu) (i : Interpreter) : Cpu × Interpreter :=
  ({ c with eip := handler }, { i with raised := i.raised.push ⟨vector, errorCode, c.eip⟩ })

/-- Executes one instruction; faults and exceptions are delivered. -/
def step {κ : Type} [Watcher κ] (g : Guest κ Interpreter) : Except Abort (Outcome × Guest κ Interpreter) :=
  match g with
  | ⟨cpu, bus, host⟩ =>
    let (bytes, fault) := fetch cpu bus.mem Encoding.maxLength cpu.eip
    match decode bytes cpu.eip cpu.codeBig with
    | .error _ =>
      match fault with
      | none => .error .uninterpretable
      | some f =>
        let (cpu, host) := raiseException pageFaultVector (some f.errorCode) cpu host
        .ok (.next, ⟨cpu, bus, host⟩)
    | .ok i =>
      let host := { host with steps := host.steps + 1 }
      match (execute (bytes.headD 0) i).run (cpu, bus) with
      | (.ok outcome, cpu, bus) => .ok (outcome, ⟨cpu, bus, host⟩)
      | (.error trap, cpu, bus) =>
        match trap with
        | .unsupported => .error .uninterpretable
        | .exception vector =>
          let (cpu, host) := raiseException vector none cpu host
          .ok (.next, ⟨cpu, bus, host⟩)
        | .page f =>
          let (cpu, host) := raiseException pageFaultVector (some f.errorCode) cpu host
          .ok (.next, ⟨cpu, bus, host⟩)

/-- Runs until the budget, of which `n` cycles are left, is used up, the processor halts or a callback is
requested. -/
def runSteps {κ : Type} [Watcher κ] : (n : Nat) → Guest κ Interpreter → Except Abort (CoreExit × Guest κ Interpreter)
  | 0, g => .ok (.resume, g)
  | n + 1, g =>
    match step (g.setCycles (g.cpu.cycles - 1)) with
    | .error abort => .error abort
    | .ok (.next, g) => runSteps n g
    | .ok (.callback k, g) => .ok (.callback k, g)
    | .ok (.halt, ⟨cpu, bus, host⟩) =>
      .ok (.resume, ⟨{ cpu with cycles := 0 }, bus, { host with halted := true }⟩)

/-- Runs until the cycle budget is used up. -/
def runNormal {κ : Type} [Watcher κ] (g : Guest κ Interpreter) : Except Abort (CoreExit × Guest κ Interpreter) :=
  runSteps g.cpu.cycles.toInt.toNat g

/-- Runs after an undefined opcode. -/
def runFull {κ : Type} [Watcher κ] (g : Guest κ Interpreter) : Except Abort (CoreExit × Guest κ Interpreter) :=
  match g with
  | ⟨cpu, bus, host⟩ => runNormal ⟨cpu, bus, { host with fullRuns := host.fullRuns + 1 }⟩

/-- Delivers an exception. -/
def deliver {κ : Type} (vector : UInt8) (errorCode : Option UInt32) (g : Guest κ Interpreter) :
    Guest κ Interpreter :=
  match g with
  | ⟨cpu, bus, host⟩ =>
    let (cpu, host) := raiseException vector errorCode cpu host
    ⟨cpu, bus, host⟩

/-- The reference interpreter as a platform. -/
def platform : Platform Interpreter where
  runNormal := runNormal
  runFull := runFull
  raiseException := deliver
  pageFault f := deliver pageFaultVector (some f.errorCode)
  irqPending _ i := i.irq

end Interpreter

end Recompiler
