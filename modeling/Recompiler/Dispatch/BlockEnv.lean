import Recompiler.Guest.Division
import Recompiler.Platform
import Recompiler.Compile.Block

/-! What a running block calls. A fault or exception is delivered before the block is told to leave, and a store that
hits the running block is not performed. -/

namespace Recompiler

/-- Counts of what the dispatcher did. -/
structure Stats where
  lookups : Nat := 0
  compilations : Nat := 0
  /-- Blocks entered by the dispatcher; those reached through links are not counted. -/
  blockRuns : Nat := 0
  links : Nat := 0
  /-- Slices given to the interpreter as a whole. -/
  interpreterRuns : Nat := 0
  /-- Single instructions given to the interpreter. -/
  interpreterSteps : Nat := 0
  /-- Stores that hit the running block. -/
  smcExits : Nat := 0
  pageFaults : Nat := 0
  divideErrors : Nat := 0
  callbacks : Nat := 0
  deriving DecidableEq, Repr, Inhabited

/-- What the helpers of a running block work on, besides the processor. -/
structure BlockEnv (σ : Type) where
  bus : Bus Cache
  host : σ
  stats : Stats

namespace BlockEnv

variable {σ : Type} (p : Platform σ)

/-- Delivers a page fault; the instruction is run again afterwards. -/
def pageFault {α : Type} (fault : PageFault) : HelperCall (BlockEnv σ) α
  | cpu, ⟨bus, host, stats⟩ =>
    match p.pageFault fault ⟨cpu, bus, host⟩ with
    | ⟨cpu, bus, host⟩ =>
      .ok (.error .normal, cpu, ⟨bus, host, { stats with pageFaults := stats.pageFaults + 1 }⟩)

def load (linear : UInt32) (w : Width) : HelperCall (BlockEnv σ) UInt32
  | cpu, env =>
    match env.bus.mem.loadLinear linear w with
    | .ok value => .ok (.ok value, cpu, env)
    | .error fault => pageFault p fault cpu env

/-- Stores bytes one by one, until one hits the running block; the pages are known to be there. -/
def storeBytes (running : Option BlockId) :
    (linear : UInt32) → List UInt8 → Bus Cache → Except PageFault Bool × Bus Cache
  | _, [], bus => (.ok false, bus)
  | linear, b :: rest, ⟨mem, cache⟩ =>
    match mem.resolve linear true with
    | .error fault => (.error fault, ⟨mem, cache⟩)
    | .ok paddr =>
      match cache.writeChecked mem paddr .w8 b.toUInt32 running with
      | (true, mem, cache) => (.ok true, ⟨mem, cache⟩)
      | (false, mem, cache) => storeBytes running (linear + 1) rest ⟨mem, cache⟩

/-- Store to a linear address, and whether it hit the running block. -/
def storeLinear (linear : UInt32) (w : Width) (value : UInt32) (running : Option BlockId) :
    Bus Cache → Except PageFault Bool × Bus Cache
  | ⟨mem, cache⟩ =>
    let last := linear + (w.bytes - 1).toUInt32
    match mem.resolve linear true with
    | .error fault => (.error fault, ⟨mem, cache⟩)
    | .ok paddr =>
      if pageOf linear = pageOf last then
        match cache.writeChecked mem paddr w value running with
        | (hit, mem, cache) => (.ok hit, ⟨mem, cache⟩)
      else
        match mem.resolve last true with
        | .error fault => (.error fault, ⟨mem, cache⟩)
        | .ok _ => storeBytes running linear (w.split value) ⟨mem, cache⟩

def store (linear : UInt32) (w : Width) (value : UInt32) (running : Option BlockId) : HelperCall (BlockEnv σ) Unit
  | cpu, ⟨bus, host, stats⟩ =>
    match storeLinear linear w value running bus with
    | (.error fault, bus) => pageFault p fault cpu ⟨bus, host, stats⟩
    | (.ok true, bus) => .ok (.error .smcBlock, cpu, ⟨bus, host, { stats with smcExits := stats.smcExits + 1 }⟩)
    | (.ok false, bus) => .ok (.ok (), cpu, ⟨bus, host, stats⟩)

def divide (w : Width) (signed : Bool) (divisor : UInt32) : HelperCall (BlockEnv σ) Unit
  | cpu, ⟨bus, host, stats⟩ =>
    match cpu.divide w signed divisor with
    | some cpu => .ok (.ok (), cpu, ⟨bus, host, stats⟩)
    | none =>
      match p.raiseException divideError none ⟨cpu, bus, host⟩ with
      | ⟨cpu, bus, host⟩ =>
        .ok (.error .normal, cpu, ⟨bus, host, { stats with divideErrors := stats.divideErrors + 1 }⟩)

/-- Runs the current instruction in the interpreter. The block goes on only if it is still there, no callback was
requested and execution goes on at `nextEip`. -/
def interpret (nextEip : UInt32) (running : Option BlockId) : HelperCall (BlockEnv σ) Unit
  | cpu, ⟨bus, host, stats⟩ =>
    let stats := { stats with interpreterSteps := stats.interpreterSteps + 1 }
    let old := cpu.cycles
    match p.runNormal ⟨{ cpu with cycles := 1 }, bus, host⟩ with
    | .error abort => .error abort
    | .ok (exit, ⟨cpu, bus, host⟩) =>
      let cpu := { cpu with cycles := old }
      match running with
      | none =>
        if exit = .resume ∧ cpu.eip = nextEip then .ok (.ok (), cpu, ⟨bus, host, stats⟩)
        else .ok (.error .normal, cpu, ⟨bus, host, stats⟩)
      | some id =>
        if bus.watch.blocks.size ≤ id then .error .outOfRange
        else if (bus.watch.block id).live ∧ exit = .resume ∧ cpu.eip = nextEip then
          .ok (.ok (), cpu, ⟨bus, host, stats⟩)
        else .ok (.error .normal, cpu, ⟨bus, host, stats⟩)

/-- Values on the guest's stack from a stack pointer on, and the pointer behind them. -/
def popValues (cpu : Cpu) (mem : Memory) (w : Width) :
    (n : Nat) → (sp : UInt32) → Except PageFault (List UInt32 × UInt32)
  | 0, sp => .ok ([], sp)
  | n + 1, sp => do
    let mask := cpu.stackWidth.mask
    let value ← mem.loadLinear (cpu.base .ss + (sp &&& mask)) w
    let (values, sp) ← popValues cpu mem w n ((sp + w.bytes.toUInt32) &&& mask)
    return (value :: values, sp)

/-- Real-mode interrupt return: instruction pointer, code segment and flags come off the stack. -/
def iret (w : Width) : HelperCall (BlockEnv σ) Unit
  | cpu, env =>
    match popValues cpu env.bus.mem w 3 (cpu.reg cpu.stackReg) with
    | .error fault => pageFault p fault cpu env
    | .ok (values, sp) =>
      let mask := Flag.iretMask w
      let value (i : Nat) : UInt32 := values.getD i 0
      let stackReg := cpu.stackReg
      let cpu := { cpu with eip := value 0 &&& w.mask }
      let cpu := cpu.loadRealSegment .cs (value 1).toUInt16
      let cpu := { cpu with eflags := (cpu.eflags &&& ~~~mask) ||| (value 2 &&& mask) ||| Flag.reserved1 }
      .ok (.ok (), cpu.setReg stackReg sp, env)

/-- Content of the link table entry at a host address. -/
def linkTarget (entry : Nat) (env : BlockEnv σ) : Except Abort Nat :=
  match (HostCode.linkEntryIndex? entry).bind fun i => env.bus.watch.linkTable[i]? with
  | some addr => .ok addr
  | none => .error .outOfRange

/-- The helpers of a running block. -/
def helpers : Helpers (BlockEnv σ) where
  load := load p
  store := store p
  loadPhys paddr w env := env.bus.mem.read paddr w
  divide := divide p
  interpret := interpret p
  iret := iret p
  linkTarget := linkTarget

end BlockEnv

end Recompiler
