import Recompiler.Abort
import Recompiler.Code.MicroOp
import Recompiler.Guest.Cpu

/-! What micro-operations do. A run of host code works on the guest processor, three temporaries, the number of the
running block and an environment that only the helpers see. A helper either completes or tells the block with
which exit code to leave. -/

namespace Recompiler

/-- Number of a block descriptor. -/
abbrev BlockId := Nat

/-- Exit code of host code that is no code of its own encoding. -/
def malformedExit : UInt32 := 0xFFFFFFFF

/-- A run of host code. -/
structure Activation (ε : Type) where
  cpu : Cpu
  env : ε
  temps : Vector UInt32 3 := .replicate 3 0
  /-- The running block, all ones before the first one is entered. -/
  running : UInt32 := 0xFFFFFFFF
  /-- Number of the requested platform callback. -/
  callback : UInt32 := 0

/-- The block that is running. -/
def Activation.runningBlock {ε : Type} (s : Activation ε) : Option BlockId :=
  if s.running = 0xFFFFFFFF then none else some s.running.toNat

/-- The call of a helper: it may change the processor and the environment. -/
abbrev HelperCall (ε α : Type) := Cpu → ε → Except Abort (Except ExitCode α × Cpu × ε)

/-- What a block can call. -/
structure Helpers (ε : Type) where
  load : (linear : UInt32) → Width → HelperCall ε UInt32
  store : (linear : UInt32) → Width → (value : UInt32) → (running : Option BlockId) → HelperCall ε Unit
  loadPhys : (paddr : UInt32) → Width → ε → UInt32
  divide : Width → (signed : Bool) → (divisor : UInt32) → HelperCall ε Unit
  interpret : (nextEip : UInt32) → (running : Option BlockId) → HelperCall ε Unit
  iret : Width → HelperCall ε Unit
  /-- Content of the link table entry at a host address. -/
  linkTarget : (entry : Nat) → ε → Except Abort Nat

namespace Action

variable {ε : Type}

/-- Completes a helper call that has no result. -/
def afterCall (temps : Vector UInt32 3) (running callback : UInt32) :
    Except ExitCode Unit × Cpu × ε → Option ExitCode × Activation ε
  | (.ok (), cpu, env) => (none, ⟨cpu, env, temps, running, callback⟩)
  | (.error code, cpu, env) => (some code, ⟨cpu, env, temps, running, callback⟩)

/-- Performs an action. The result says whether the block has to leave, and how. -/
def perform (h : Helpers ε) (a : Action) (s : Activation ε) : Except Abort (Option ExitCode × Activation ε) :=
  match s with
  | ⟨cpu, env, temps, running, callback⟩ =>
    let block := if running = 0xFFFFFFFF then none else some running.toNat
    match a with
    | enter b => .ok (if cpu.cycles ≤ 0 then some .cycles else none, ⟨cpu, env, temps, b, callback⟩)
    | loadImm dst value => .ok (none, ⟨cpu, env, temps.set dst.index value, running, callback⟩)
    | loadPhys dst paddr w signExtend =>
      let value := h.loadPhys paddr w env
      let value := if signExtend then w.signExtend value else value
      .ok (none, ⟨cpu, env, temps.set dst.index value, running, callback⟩)
    | loadReg dst r => .ok (none, ⟨cpu, env, temps.set dst.index (cpu.reg r), running, callback⟩)
    | storeReg r src => .ok (none, ⟨cpu.setReg r temps[src.index], env, temps, running, callback⟩)
    | mov dst src => .ok (none, ⟨cpu, env, temps.set dst.index temps[src.index], running, callback⟩)
    | addImm dst value =>
      .ok (none, ⟨cpu, env, temps.set dst.index (temps[dst.index] + value), running, callback⟩)
    | andImm dst value =>
      .ok (none, ⟨cpu, env, temps.set dst.index (temps[dst.index] &&& value), running, callback⟩)
    | lea dst addr => .ok (none, ⟨cpu, env, temps.set dst.index (cpu.offset addr), running, callback⟩)
    | addSegBase dst seg =>
      .ok (none, ⟨cpu, env, temps.set dst.index (temps[dst.index] + cpu.base seg), running, callback⟩)
    | alu op w dst src =>
      let (result, eflags) := Arithmetic.alu op w temps[dst.index] temps[src.index] cpu.eflags
      let temps := if op.writesResult then temps.set dst.index result else temps
      .ok (none, ⟨{ cpu with eflags }, env, temps, running, callback⟩)
    | unary op w dst =>
      let (result, eflags) := Arithmetic.unary op w temps[dst.index] cpu.eflags
      .ok (none, ⟨{ cpu with eflags }, env, temps.set dst.index result, running, callback⟩)
    | load dst addr w =>
      match h.load temps[addr.index] w cpu env with
      | .error abort => .error abort
      | .ok (.ok value, cpu, env) => .ok (none, ⟨cpu, env, temps.set dst.index value, running, callback⟩)
      | .ok (.error code, cpu, env) => .ok (some code, ⟨cpu, env, temps, running, callback⟩)
    | store addr src w =>
      (h.store temps[addr.index] w temps[src.index] block cpu env).map (afterCall temps running callback)
    | div w signed divisor =>
      (h.divide w signed temps[divisor.index] cpu env).map (afterCall temps running callback)
    | interpret nextEip => (h.interpret nextEip block cpu env).map (afterCall temps running callback)
    | iret w => (h.iret w cpu env).map (afterCall temps running callback)
    | subCycles n =>
      .ok (none, ⟨{ cpu with cycles := cpu.cycles - n.toInt32 }, env, temps, running, callback⟩)
    | setEip eip => .ok (none, ⟨{ cpu with eip }, env, temps, running, callback⟩)
    | storeEip src => .ok (none, ⟨{ cpu with eip := temps[src.index] }, env, temps, running, callback⟩)
    | setCallback n => .ok (none, ⟨cpu, env, temps, running, n⟩)

end Action

namespace MicroOp

/-- The operations that follow the last place where a label is bound. -/
def afterBind (label : Label) : List MicroOp → List MicroOp
  | [] => []
  | op :: rest =>
    if rest.contains (bind label) then afterBind label rest
    else if op = bind label then rest
    else afterBind label rest

/-- Runs micro-operations until they leave. `programs` gives the micro-operations at a host address, for links;
`whole` is the program that `rest` is a part of. -/
def run {ε : Type} (h : Helpers ε) (programs : Nat → Option (List MicroOp)) :
    Nat → (whole rest : List MicroOp) → Activation ε → Except Abort (UInt32 × Activation ε)
  | 0, _, _, _ => .error .outOfFuel
  | _ + 1, _, [], s => .ok (malformedExit, s)
  | fuel + 1, whole, op :: rest, s =>
    match op with
    | act a =>
      match a.perform h s with
      | .error abort => .error abort
      | .ok (some code, s) => .ok (code.raw, s)
      | .ok (none, s) => run h programs fuel whole rest s
    | jumpIf cond label =>
      run h programs fuel whole (if cond.holds s.cpu.eflags then afterBind label whole else rest) s
    | bind _ => run h programs fuel whole rest s
    | exit code => .ok (code.raw, s)
    | link _ entry =>
      match h.linkTarget entry.toNat s.env with
      | .error abort => .error abort
      | .ok target =>
        match programs target with
        | some ops => run h programs fuel ops ops s
        | none => .ok (malformedExit, s)

end MicroOp

end Recompiler
