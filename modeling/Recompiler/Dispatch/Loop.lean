import Recompiler.Dispatch.BlockEnv

/-! The dispatch loop: looks the block at the instruction pointer up or compiles it, runs it, and acts on the way
it leaves. Blocks that leave through a link slot are linked to their successor if that exists. -/

namespace Recompiler

/-- The recompiler at work: the machine, the host code, and what is kept between runs. -/
structure Engine (σ : Type) where
  guest : Guest Cache σ
  code : HostCode
  stats : Stats
  /-- The last interrupt return set the trap flag, and the next run takes a single step. -/
  trap : Bool

/-- How a block left: its exit code, the block that left, and the number of a requested callback. -/
structure BlockExit where
  code : ExitCode
  running : Option BlockId
  callback : UInt32
  deriving DecidableEq, Repr, Inhabited

/-- What the dispatcher does next. -/
inductive Phase where
  | lookup
  /-- Compile the block at the instruction pointer, whose page the monitor watches. -/
  | create (m : MonitorId)
  | enter (id : BlockId)
  | leave (exit : BlockExit)
  | done (exit : CoreExit)
  deriving DecidableEq, Repr, Inhabited

namespace Engine

variable {σ : Type} (p : Platform σ)

/-- Result of a dispatching step; an error keeps the state. -/
abbrev Result (σ α : Type) := Except Abort (Except CoreError α × Engine σ)

def cache (e : Engine σ) : Cache :=
  e.guest.bus.watch

/-- Finds the block at the instruction pointer. A page that is not there is faulted in, and a page that must not
hold code is left to the interpreter. -/
def lookup : Engine σ → Result σ Phase
  | ⟨⟨cpu, ⟨mem, cache⟩, host⟩, code, stats, trap⟩ =>
    let stats := { stats with lookups := stats.lookups + 1 }
    match cache.codePage mem cpu.ipLinear cpu.codeBig none with
    | .error abort => .error abort
    | .ok (.error fault, mem, cache) =>
      let guest := p.pageFault fault ⟨cpu, ⟨mem, cache⟩, host⟩
      .ok (.ok .lookup, ⟨guest, code, { stats with pageFaults := stats.pageFaults + 1 }, trap⟩)
    | .ok (.ok none, mem, cache) =>
      match p.runNormal ⟨cpu, ⟨mem, cache⟩, host⟩ with
      | .error abort => .error abort
      | .ok (exit, guest) =>
        .ok (.ok (.done exit), ⟨guest, code, { stats with interpreterRuns := stats.interpreterRuns + 1 }, trap⟩)
    | .ok (.ok (some m), mem, cache) =>
      let phase :=
        match cache.find m (pageOffset cpu.ipLinear) with
        | some id => .enter id
        | none => .create m
      .ok (.ok phase, ⟨⟨cpu, ⟨mem, cache⟩, host⟩, code, stats, trap⟩)

/-- Runs one instruction where code is overwritten too often to be worth compiling. -/
def interpretHeavy : Engine σ → Result σ Phase
  | ⟨⟨cpu, bus, host⟩, code, stats, trap⟩ =>
    let old := cpu.cycles
    match p.runNormal ⟨{ cpu with cycles := 1 }, bus, host⟩ with
    | .error abort => .error abort
    | .ok (exit, ⟨cpu, bus, host⟩) =>
      let stats := { stats with interpreterSteps := stats.interpreterSteps + 1 }
      match exit with
      | .resume =>
        (Cycles.spend old).map fun left =>
          let phase := if left ≤ 0 then .done .resume else .lookup
          (.ok phase, ⟨⟨{ cpu with cycles := left }, bus, host⟩, code, stats, trap⟩)
      | .callback n =>
        (Cycles.total cpu.cycleLeft old).map fun left =>
          (.ok (.done (.callback n)), ⟨⟨{ cpu with cycleLeft := left }, bus, host⟩, code, stats, trap⟩)

/-- Compiles the block at the instruction pointer. -/
def compile (m : MonitorId) : Engine σ → Result σ BlockId
  | ⟨⟨cpu, ⟨mem, cache⟩, host⟩, code, stats, trap⟩ =>
    let stats := { stats with compilations := stats.compilations + 1 }
    match Compile.createBlock cpu m mem cache code with
    | .error abort => .error abort
    | .ok (r, mem, cache, code) => .ok (r, ⟨⟨cpu, ⟨mem, cache⟩, host⟩, code, stats, trap⟩)

/-- Whether the byte at the instruction pointer is overwritten too often to count as code. -/
def heavy (m : MonitorId) (e : Engine σ) : Bool :=
  e.cache.countsAsData m (pageOffset e.guest.cpu.ipLinear)

/-- Runs a block, and what it is linked to, until it leaves. -/
def execute (fuel : Nat) (id : BlockId) : Engine σ → Result σ BlockExit
  | ⟨⟨cpu, bus, host⟩, code, stats, trap⟩ =>
    let entry := bus.watch.codeAddr id
    match code.run (BlockEnv.helpers p) fuel entry { cpu, env := ⟨bus, host, stats⟩ } with
    | .error abort => .error abort
    | .ok (raw, ⟨cpu, ⟨bus, host, stats⟩, _, running, callback⟩) =>
      let running := if running = 0xFFFFFFFF then none else some running.toNat
      .ok ((ExitCode.decode raw).map fun code => { code, running, callback },
        ⟨⟨cpu, bus, host⟩, code, stats, trap⟩)

/-- Runs a block on behalf of the dispatcher. -/
def enter (fuel : Nat) (id : BlockId) : Engine σ → Result σ BlockExit
  | ⟨guest, code, stats, trap⟩ =>
    execute p fuel id ⟨guest, code, { stats with blockRuns := stats.blockRuns + 1 }, trap⟩

/-- The block that a slot of the block that just left could be linked to: the one at the instruction pointer, if it
exists for the current code size. -/
def linkCandidate (cache : Cache) (cpu : Cpu) (mem : Memory) (running : Option BlockId) (slot : Slot) :
    Except Abort (Option (BlockId × BlockId)) :=
  match running with
  | none => .ok none
  | some id =>
    if cache.blocks.size ≤ id then .error .outOfRange
    else
      let b := cache.block id
      if !b.live || b.isCompanion || (b.links.get slot).target.isSome then .ok none
      else
        .ok do
          let paddr ← (mem.resolve cpu.ipLinear false).toOption
          let m ← cache.monitorOf (pageOf paddr)
          if (cache.monitor m).code32 = cpu.codeBig then
            let target ← cache.find m (pageOffset cpu.ipLinear)
            some (id, target)
          else none

/-- Links the block that left through a slot, if its successor exists. -/
def followLink (slot : Slot) (running : Option BlockId) : Engine σ → Result σ Phase
  | ⟨⟨cpu, ⟨mem, cache⟩, host⟩, code, stats, trap⟩ =>
    match linkCandidate cache cpu mem running slot with
    | .error abort => .error abort
    | .ok none => .ok (.ok .lookup, ⟨⟨cpu, ⟨mem, cache⟩, host⟩, code, stats, trap⟩)
    | .ok (some (id, target)) =>
      .ok (.ok (.enter target),
        ⟨⟨cpu, ⟨mem, cache.link id slot target⟩, host⟩, code, { stats with links := stats.links + 1 }, trap⟩)

/-- Runs one instruction in the interpreter and ends the slice; what is left of it is put aside. -/
def interpretOne (full : Bool) : Engine σ → Result σ Phase
  | ⟨⟨cpu, bus, host⟩, code, stats, trap⟩ =>
    let stats := { stats with interpreterSteps := stats.interpreterSteps + 1 }
    match Cycles.total cpu.cycleLeft cpu.cycles with
    | .error abort => .error abort
    | .ok left =>
      let guest := ⟨{ cpu with cycleLeft := left, cycles := 1 }, bus, host⟩
      match if full then p.runFull guest else p.runNormal guest with
      | .error abort => .error abort
      | .ok (exit, guest) => .ok (.ok (.done exit), ⟨guest, code, stats, trap⟩)

/-- Goes on after an interrupt return. -/
def afterIret : Engine σ → Phase × Engine σ
  | ⟨guest, code, stats, trap⟩ =>
    if guest.cpu.getFlag Flag.tf then (.done .resume, ⟨guest, code, stats, true⟩)
    else if guest.cpu.getFlag Flag.ief && p.irqPending guest.cpu guest.host then
      (.done .resume, ⟨guest, code, stats, trap⟩)
    else (.lookup, ⟨guest, code, stats, trap⟩)

/-- Acts on the way a block left. -/
def afterExit (exit : BlockExit) (e : Engine σ) : Result σ Phase :=
  match exit.code with
  | .normal => .ok (.ok .lookup, e)
  | .cycles => .ok (.ok (.done .resume), e)
  | .link1 => e.followLink .first exit.running
  | .link2 => e.followLink .second exit.running
  | .opcode | .smcBlock => e.interpretOne p false
  | .opcodeFull => e.interpretOne p true
  | .callback =>
    match e with
    | ⟨guest, code, stats, trap⟩ =>
      .ok (.ok (.done (.callback exit.callback)),
        ⟨guest, code, { stats with callbacks := stats.callbacks + 1 }, trap⟩)
  | .iret =>
    let (phase, e) := e.afterIret p
    .ok (.ok phase, e)

/-- One step of the dispatcher. -/
def step (fuel : Nat) (phase : Phase) (e : Engine σ) : Result σ Phase :=
  match phase with
  | .lookup => e.lookup p
  | .create m =>
    if e.heavy m then e.interpretHeavy p
    else
      match e.compile m with
      | .error abort => .error abort
      | .ok (r, e) => .ok (r.map .enter, e)
  | .enter id =>
    match e.enter p fuel id with
    | .error abort => .error abort
    | .ok (r, e) => .ok (r.map .leave, e)
  | .leave exit => e.afterExit p exit
  | .done exit => .ok (.ok (.done exit), e)

/-- Dispatches until the slice ends; `fuel` bounds the steps of the dispatcher, and of each block run. -/
def dispatch : (fuel : Nat) → Phase → Engine σ → Result σ CoreExit
  | 0, _, _ => .error .outOfFuel
  | fuel + 1, phase, e =>
    match phase with
    | .done exit => .ok (.ok exit, e)
    | phase =>
      match e.step p (fuel + 1) phase with
      | .error abort => .error abort
      | .ok (.error err, e) => .ok (.error err, e)
      | .ok (.ok phase, e) => dispatch fuel phase e

end Engine

end Recompiler
