import Recompiler.Code.Threaded.Listing
import Recompiler.Script.Platform
import Recompiler.Script.Reply
import Recompiler.Script.Text

/-! Driving a whole machine by a script: slices of guest code, stores by devices, changes of the memory map, and
looks at what the recompiler made of it. -/

namespace Recompiler

inductive SessionCommand where
  /-- Runs for a number of cycles and what was put aside. -/
  | slice (cycles : Int32)
  /-- Runs slices until the processor halts. -/
  | untilHalt (slices : Nat) (cycles : Int32)
  | restart (eip : UInt32)
  | setCpu (f : Cpu → Cpu)
  | setIrq (on : Bool)
  | prepare (eip : Option UInt32)
  | execute (id : Option BlockId) (cycles : Option Int32)
  | enable (on : Bool)
  | shutdown
  | stepOne
  | load (paddr : Nat) (bytes : List UInt8)
  | write (linear : UInt32) (w : Width) (value : UInt32)
  | read (linear : UInt32) (w : Width)
  | writeBytewise (linear : UInt32) (w : Width) (value : UInt32)
  | readBytewise (linear : UInt32) (w : Width)
  | bytes (paddr len : Nat)
  /-- What changed in memory since it was last asked. -/
  | changes
  | setFlags (page : Nat) (flags : UInt8)
  | setPresent (page : UInt32) (present : Bool)
  | map (page phys : UInt32)
  | protect (page : UInt32)
  | released
  | texts
  | cache
  | spans
  | block (id : Option BlockId)
  | sources (id : Option BlockId)
  | monitorOf (page : UInt32)
  | find (page : UInt32) (start : Nat)
  | listing (id : Option BlockId)
  | patchCode (id : Option BlockId) (offset : Nat) (bytes : List UInt8)

structure Session where
  machine : Machine Scripted
  /-- The block that the last preparation gave. -/
  block : BlockId := 0
  /-- Memory when its changes were last asked for. -/
  before : ByteArray
  /-- Exceptions and page faults already reported. -/
  seenRaised : Nat := 0
  seenFaults : Nat := 0

namespace Session

/-- Where the stack starts. -/
def stackTop : UInt32 := 0x8000

/-- Bound on the steps of the dispatcher and of a block run; a run that reaches it would not end. -/
def fuel : Nat := 100000000

/-- Puts bytes into memory one piece after the other. -/
def loadAll (mem : Memory) (pieces : List (Nat × List UInt8)) : Option Memory :=
  pieces.foldlM (fun mem (paddr, bytes) => mem.load? paddr bytes) mem

/-- What a session starts from. -/
structure Setup where
  settings : Settings
  enable : Bool
  ram : Nat
  cpu : Cpu
  /-- Changes to the processor after memory is filled. -/
  adjust : Cpu → Cpu
  load : List (Nat × List UInt8)
  platform : Scripted

/-- Starts a session: a processor with its stack, a halt instruction at the exception handler, and memory filled in
order. -/
def start (s : Setup) : Except Abort (Except CoreError Session) :=
  match loadAll (Memory.zeroed s.ram) ((Interpreter.handler.toNat, [0xF4]) :: s.load) with
  | none => .error .outOfRange
  | some mem =>
    let cpu := s.adjust (s.cpu.setGpr .esp stackTop)
    let core : Core := { settings := s.settings }
    .ok <| (core.enable s.enable).map fun core =>
      { machine := { core, cpu, mem, host := s.platform }, before := mem.ram }

def modifyMachine (f : Machine Scripted → Machine Scripted) : Session → Session
  | ⟨machine, block, before, seenRaised, seenFaults⟩ => ⟨f machine, block, before, seenRaised, seenFaults⟩

/-- Runs something on the machine. -/
def withMachine {α : Type} (f : Machine Scripted → α × Machine Scripted) : Session → α × Session
  | ⟨machine, block, before, seenRaised, seenFaults⟩ =>
    match f machine with
    | (a, machine) => (a, ⟨machine, block, before, seenRaised, seenFaults⟩)

def modifyCpu (f : Cpu → Cpu) : Session → Session :=
  modifyMachine fun ⟨core, cpu, mem, host⟩ => ⟨core, f cpu, mem, host⟩

def modifyMemory (f : Memory → Memory) : Session → Session :=
  modifyMachine fun ⟨core, cpu, mem, host⟩ => ⟨core, cpu, f mem, host⟩

def modifyInterpreter (f : Interpreter → Interpreter) : Session → Session :=
  modifyMachine fun ⟨core, cpu, mem, host⟩ => ⟨core, cpu, mem, { host with interpreter := f host.interpreter }⟩

/-- The report after guest code ran; what it holds is not reported again. -/
def report (s : Session) : Report × Session :=
  let host := s.machine.host
  let i := host.interpreter
  ({ cpu := s.machine.cpu
     raised := i.raised.toList.drop s.seenRaised
     faults := host.faults.toList.drop s.seenFaults
     halted := i.halted, interpreted := i.steps, fullRuns := i.fullRuns, stats := s.machine.core.stats },
    { s with seenRaised := i.raised.size, seenFaults := host.faults.size })

/-- Runs an operation of the machine. -/
def onMachine {α : Type} (f : Machine Scripted → Machine.Result Scripted α) :
    Session → Except Abort (Except CoreError α × Session)
  | ⟨machine, block, before, seenRaised, seenFaults⟩ =>
    (f machine).map fun (r, machine) => (r, ⟨machine, block, before, seenRaised, seenFaults⟩)

/-- Runs one slice. -/
def runSlice (cycles : Int32) (s : Session) : Except Abort (Except CoreError CoreExit × Session) :=
  onMachine (Machine.run Scripted.platform fuel)
    (s.modifyCpu fun c => { c with cycles := cycles + c.cycleLeft, cycleLeft := 0 })

/-- Runs slices until the processor halts, an error occurs or `n` of them are through. -/
def runSlices (cycles : Int32) : (n : Nat) → Session → Except Abort (List (Except CoreError CoreExit) × Session)
  | 0, s => .ok ([], s)
  | n + 1, s =>
    if s.machine.host.interpreter.halted then .ok ([], s)
    else
      match runSlice cycles s with
      | .error abort => .error abort
      | .ok (.error e, s) => .ok ([.error e], s)
      | .ok (.ok exit, s) =>
        match runSlices cycles n s with
        | .error abort => .error abort
        | .ok (exits, s) => .ok (.ok exit :: exits, s)

/-- Puts a changed byte in front of the stretches behind it. -/
def addChange (i : Nat) (b : UInt8) : List (Nat × List UInt8) → List (Nat × List UInt8)
  | [] => [(i, [b])]
  | (j, bs) :: more => if j = i + 1 then (i, b :: bs) :: more else (i, [b]) :: (j, bs) :: more

/-- Stretches of memory that differ, with what they hold now. -/
def stretches (old new : List UInt8) : List (Nat × List UInt8) :=
  (old.zip new).zipIdx.foldr (fun ((a, b), i) runs => if a = b then runs else addChange i b runs) []

/-- An optional fault. -/
def faulted : Option PageFault → Reply
  | some f => .fault f
  | none => .nothing

/-- The cache, if the recompiler is enabled. -/
def cache? (s : Session) : Option Cache :=
  s.machine.core.resources.map (·.cache)

/-- Looks at the cache. -/
def onCache (s : Session) (f : Cache → Reply) : Reply :=
  match s.cache? with
  | some c => f c
  | none => .refused "disabled"

/-- Looks at a block that must exist. -/
def onBlock (s : Session) (id : Option BlockId) (f : Cache → BlockId → Reply) : Reply :=
  s.onCache fun c =>
    let id := id.getD s.block
    if c.hasBlock id then f c id else .abort

/-- Looks at the threaded code of a block that must exist and can be entered. -/
def onCode (s : Session) (id : Option BlockId) : Except Reply (BlockId × Block × HostCode) :=
  match s.machine.core.resources with
  | none => .error (.refused "disabled")
  | some ⟨cache, code⟩ =>
    let id := id.getD s.block
    if code.emitter.backend = .native then .error (.refused "native")
    else if !cache.hasBlock id then .error .abort
    else if cache.enterable id then .ok (id, cache.block id, code)
    else .error (.refused "dead_block")

/-- Overwrites host code from an arena offset on. -/
def patchArena (first : Nat) (bytes : List UInt8) : Session → Option Session
  | ⟨⟨⟨settings, some ⟨cache, code⟩, trap, stats⟩, cpu, mem, host⟩, block, before, seenRaised, seenFaults⟩ =>
    match code with
    | ⟨arena, base, emitter, stubs, programs⟩ =>
      (arena.write? first (first + bytes.length) bytes).map fun arena =>
        ⟨⟨⟨settings, some ⟨cache, ⟨arena, base, emitter, stubs, programs⟩⟩, trap, stats⟩, cpu, mem, host⟩,
          block, before, seenRaised, seenFaults⟩
  | s => some s

/-- A reply with a report. -/
def reported (s : Session) (f : Report → Reply) : Reply × Session :=
  let (r, s) := s.report
  (f r, s)

/-- Carries out a command. -/
def run (s : Session) (command : SessionCommand) : Except Abort (Reply × Session) :=
  match command with
  | .slice cycles => do
    match ← runSlice cycles s with
    | (.ok exit, s) => return s.reported (.exit exit)
    | (.error e, s) => return (.error e, s)
  | .untilHalt slices cycles => do
    let (exits, s) ← runSlices cycles slices s
    return s.reported (.exits exits)
  | .restart eip =>
    .ok (.nothing, (s.modifyCpu fun c => { c with eip }).modifyInterpreter fun i => { i with halted := false })
  | .setCpu f => .ok (.nothing, s.modifyCpu f)
  | .setIrq on => .ok (.nothing, s.modifyInterpreter fun i => { i with irq := on })
  | .prepare eip => do
    match ← onMachine Machine.prepareBlock (s.modifyCpu fun c => { c with eip := eip.getD c.eip }) with
    | (.ok (some id), s) => return (.number id, { s with block := id })
    | (.ok none, s) => return (.nothing, s)
    | (.error e, s) => return (.error e, s)
  | .execute id cycles => do
    let id := id.getD s.block
    if let some c := s.cache? then
      if !c.enterable id then return (.refused "dead_block", s)
    let s := s.modifyCpu fun c => { c with cycles := cycles.getD c.cycles }
    match ← onMachine (Machine.executeBlock Scripted.platform fuel id) s with
    | (.ok code, s) => return s.reported (.left code)
    | (.error e, s) => return (.error e, s)
  | .enable on =>
    match s.machine.core.enable on with
    | .ok core => .ok (.flag core.enabled, s.modifyMachine fun m => { m with core })
    | .error e => .ok (.error e, s)
  | .shutdown =>
    let s := s.modifyMachine fun m => { m with core := m.core.shutdown }
    .ok (.flag s.machine.core.enabled, s)
  | .stepOne => do
    match s with
    | ⟨machine, block, before, seenRaised, seenFaults⟩ =>
      let (exit, machine) ← machine.onGuest (Guest.stepOne Scripted.platform)
      return (Session.mk machine block before seenRaised seenFaults).reported (.exit exit)
  | .load paddr bytes =>
    match s.machine.mem.load? paddr bytes with
    | some mem => .ok (.nothing, s.modifyMemory fun _ => mem)
    | none => .error .outOfRange
  | .write linear w value =>
    let (fault, s) := s.withMachine fun m => m.write linear w value
    .ok (faulted fault, s)
  | .writeBytewise linear w value =>
    let (fault, s) := s.withMachine fun m => m.writeBytewise linear w value
    .ok (faulted fault, s)
  | .read linear w =>
    match s.machine.mem.loadLinear linear w with
    | .ok value => .ok (.number value.toNat, s)
    | .error f => .ok (.fault f, s)
  | .readBytewise linear w =>
    match s.machine.mem.loadBytewise linear w with
    | .ok value => .ok (.number value.toNat, s)
    | .error f => .ok (.fault f, s)
  | .bytes paddr len =>
    match s.machine.mem.bytes? paddr len with
    | some bs => .ok (.bytes bs, s)
    | none => .error .outOfRange
  | .changes =>
    let ram := s.machine.mem.ram
    .ok (.changes (stretches s.before.toList ram.toList), { s with before := ram })
  | .setFlags page flags =>
    match s.machine.mem.setFlags? page flags with
    | some mem => .ok (.nothing, s.modifyMemory fun _ => mem)
    | none => .error .outOfRange
  | .setPresent page present => .ok (.nothing, s.modifyMemory fun m => m.setPresent page present)
  | .map page phys => .ok (.nothing, s.modifyMemory fun m => m.map page phys)
  | .protect page => .ok (.nothing, s.modifyMemory fun m => m.protect page)
  | .released => .ok (.numbers (s.machine.mem.released.toList.map (·.toNat)), s)
  | .texts => .ok (.texts s.machine.core.text (s.cache?.map Cache.text), s)
  | .cache => .ok (s.onCache fun c => .cache c.stats c.active c.watchedPages, s)
  | .spans => .ok (s.onCache fun c => .spans c.spanViews, s)
  | .block id => .ok (s.onBlock id fun c id => .block (c.blockView c.arenaBase id), s)
  | .sources id => .ok (s.onBlock id fun c id => .sources (c.sources id .first) (c.sources id .second), s)
  | .monitorOf page =>
    let reply := s.onCache fun c =>
      match c.monitorOf page with
      | some m => .monitor (c.monitorView m)
      | none => .nothing
    .ok (reply, s)
  | .find page start =>
    let reply := s.onCache fun c =>
      match c.monitorOf page with
      | none => .nothing
      | some m =>
        if c.hasBucket m start then
          match c.find m start with
          | some id => .number id
          | none => .nothing
        else .abort
    .ok (reply, s)
  | .listing id =>
    match s.onCode id with
    | .error r => .ok (r, s)
    | .ok (_, b, code) =>
      let bytes := slice code.arena.bytes b.codeStart (b.codeStart + b.codeSize)
      .ok (.listing (Threaded.listing (code.base + b.codeStart) bytes), s)
  | .patchCode id offset bytes =>
    match s.onCode id with
    | .error r => .ok (r, s)
    | .ok (_, b, _) =>
      if offset + bytes.length ≤ b.codeSize then
        match s.patchArena (b.codeStart + offset) bytes with
        | some s => .ok (.nothing, s)
        | none => .error .outOfRange
      else .error .outOfRange

/-- Carries out commands up to the first one that is aborted. -/
def play (s : Session) : List SessionCommand → List Reply
  | [] => []
  | c :: rest =>
    match s.run c with
    | .error _ => [.abort]
    | .ok (.abort, _) => [.abort]
    | .ok (r, s) => r :: s.play rest

end Session

end Recompiler
