import Recompiler.Code.Arena
import Recompiler.Code.Threaded.Run
import Recompiler.Compile.Lowering

/-! Compilation of a block: its trace is taken, lowered, and emitted into the span at the allocation cursor. -/

namespace Recompiler

/-- Host code and what it is made with. -/
structure HostCode where
  arena : Arena
  /-- Host address of the arena. -/
  base : Nat
  emitter : Emitter
  stubs : Stubs
  /-- What the machine code at a host address does, for hosts that run it. -/
  programs : Std.HashMap Nat (List MicroOp) := {}

namespace HostCode

/-- Host address of the arena. -/
def arenaBase : Nat := 0x10000000000

/-- Host address of the link table. -/
def linkTableBase : Nat := 0x20000000000

/-- Address of the link table entry of a slot. -/
def linkEntryAddr (id : BlockId) (slot : Slot) : Nat :=
  linkTableBase + 8 * (2 * id + slot.index)

/-- Index in the link table of an entry's address. -/
def linkEntryIndex? (addr : Nat) : Option Nat :=
  if linkTableBase ≤ addr ∧ (addr - linkTableBase) % 8 = 0 then some ((addr - linkTableBase) / 8) else none

/-- Allocates the arena and writes the shared code. -/
def create (s : Settings) : Except EmitError HostCode :=
  match Arena.allocate s.cacheSize s.maxBlockSize s.protection with
  | ⟨bytes, protection⟩ =>
    let buffer : CodeBuffer := { store := bytes, start := 0, capacity := Arena.stubArea, base := arenaBase }
    match (Emitter.mk s.backend 0).emitStubs buffer with
    | .error e => .error e
    | .ok (stubs, emitter, buffer) =>
      let programs : Std.HashMap Nat (List MicroOp) :=
        match s.backend with
        | .native => .ofList [(stubs.exits.first, [.exit .link1]), (stubs.exits.second, [.exit .link2])]
        | .portable => {}
      .ok { arena := ⟨buffer.store, protection⟩, base := arenaBase, emitter, stubs, programs }

/-- Writes a block at an arena offset. Gives the number of bytes, which may be more than there was room for. -/
def emitBlock (code : HostCode) (start capacity labels : Nat) (ops : List MicroOp) :
    Except Abort (Except EmitError Nat × HostCode) :=
  match code with
  | ⟨arena, base, emitter, stubs, programs⟩ =>
    if arena.contains start (start + capacity) then
      match arena with
      | ⟨bytes, protection⟩ =>
        match emitter.emitBlock labels ops { store := bytes, start, capacity, base := base + start } with
        | .error abort => .error abort
        | .ok (r, buffer) =>
          let programs :=
            match emitter.backend with
            | .native => programs.insert (base + start) ops
            | .portable => programs
          .ok (r.map fun _ => buffer.pos, ⟨⟨buffer.store, protection⟩, base, emitter, stubs, programs⟩)
    else .error .outOfRange

/-- Runs the host code at a host address until it leaves. -/
def run {ε : Type} (code : HostCode) (h : Helpers ε) (fuel entry : Nat) (s : Activation ε) :
    Except Abort (UInt32 × Activation ε) :=
  match code.emitter.backend with
  | .portable =>
    if code.base ≤ entry then Threaded.run h code.arena.bytes code.base fuel (entry - code.base) s
    else .ok (malformedExit, s)
  | .native =>
    match code.programs[entry]? with
    | some ops => MicroOp.run h (fun addr => code.programs[addr]?) fuel ops ops s
    | none => .ok (malformedExit, s)

end HostCode

namespace Compile

/-- What lowering needs for a block at the processor's instruction pointer. -/
def context (cpu : Cpu) (id : BlockId) : LoweringContext where
  block := id
  entry slot := (HostCode.linkEntryAddr id slot).toUInt64
  code32 := cpu.codeBig
  stack32 := cpu.stackBig
  protectedMode := cpu.protectedMode

/-- Most instructions in a block, less one; the limit is a 32-bit number and at least one instruction is taken. -/
def limit (s : Settings) : Nat :=
  s.maxInstructions % 4294967296 - 1

/-- Emits the block being compiled and closes it. -/
def emit (id : BlockId) (labels : Nat) (ops : List MicroOp) (cache : Cache) (code : HostCode) :
    Except Abort (Except CoreError BlockId × Cache × HostCode) :=
  match code.emitBlock (cache.block id).codeStart (cache.capacity id) labels ops with
  | .error abort => .error abort
  | .ok (.error e, code) => .ok (.error (.emit e), cache.abandon, code)
  | .ok (.ok written, code) =>
    match cache.closeBlock written with
    | .error abort => .error abort
    | .ok (.error e, cache) => .ok (.error e, cache.clearBlock id, code)
    | .ok (.ok id, cache) => .ok (.ok id, cache, code)

/-- Opens a block at the processor's instruction pointer, on the page that `m` watches, and registers it. -/
def openSite (cpu : Cpu) (m : MonitorId) (cache : Cache) : Site × Cache :=
  let (id, cache) := cache.openBlock
  let start := pageOffset cpu.ipLinear
  let cache := cache.modifyBlock id fun b => { b with start := start, last := start }
  let cache := cache.addBlock m id
  ({ cpu, block := id, monitor := m, page := (cache.monitor m).page, linearPage := pageOf cpu.ipLinear }, cache)

/-- Compiles the block at the processor's instruction pointer, on the page that `m` watches. -/
def createBlock (cpu : Cpu) (m : MonitorId) (mem : Memory) (cache : Cache) (code : HostCode) :
    Except Abort (Except CoreError BlockId × Memory × Cache × HostCode) :=
  let (site, cache) := openSite cpu m cache
  let n := limit cache.settings
  match Scan.take site n cpu.eip { cache, mem } with
  | .error abort => .error abort
  | .ok (.error e, ⟨cache, mem, _⟩) => .ok (.error e, mem, cache.abandon, code)
  | .ok (.ok trace, ⟨cache, mem, _⟩) =>
    match emit site.block (Lowering.labels trace) (Lowering.block (context cpu site.block) trace) cache code with
    | .error abort => .error abort
    | .ok (r, cache, code) => .ok (r, mem, cache, code)

end Compile

end Recompiler
