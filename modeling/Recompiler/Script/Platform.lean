import Recompiler.Interpreter

/-! A platform that follows a script. It wraps the reference interpreter: after chosen calls it stores to memory,
moves the instruction pointer or requests a callback, and it can answer page faults by paging in. -/

namespace Recompiler

/-- The calls of the platform that a hook can follow. -/
inductive HookPoint where
  /-- The interpreter ran. -/
  | run
  /-- The recompiler raised an exception. -/
  | raised
  deriving DecidableEq, Repr

/-- What happens after a call. -/
structure Hook where
  point : HookPoint
  /-- Which of the calls, counted from zero. -/
  index : Nat
  /-- Stores through the bus: address, width and value. -/
  writes : List (UInt32 × Width × UInt32) := []
  eip : Option UInt32 := none
  callback : Option UInt32 := none
  deriving DecidableEq, Repr

structure Scripted where
  interpreter : Interpreter := {}
  hooks : List Hook := []
  /-- Page faults are answered by paging in. -/
  demand : Bool := false
  /-- The interpreter asks to skip the debug exception after every run. -/
  trapSkip : Bool := false
  /-- Calls of the interpreter so far. -/
  runs : Nat := 0
  /-- Exceptions raised by the recompiler so far. -/
  raises : Nat := 0
  /-- Page faults delivered by the recompiler, oldest first. -/
  faults : Array PageFault := #[]
  deriving DecidableEq, Repr

namespace Scripted

variable {κ : Type} [Watcher κ]

/-- After so many faults a page is paged in anyway. -/
def faultLimit : Nat := 64

/-- Runs the wrapped interpreter. -/
def onInterpreter {α : Type} (f : Guest κ Interpreter → Except Abort (α × Guest κ Interpreter)) :
    Guest κ Scripted → Except Abort (α × Guest κ Scripted)
  | ⟨cpu, bus, host⟩ =>
    match f ⟨cpu, bus, host.interpreter⟩ with
    | .error abort => .error abort
    | .ok (a, ⟨cpu, bus, interpreter⟩) => .ok (a, ⟨cpu, bus, { host with interpreter }⟩)

/-- Stores of a hook; faults are ignored. -/
def storeAll (bus : Bus κ) (writes : List (UInt32 × Width × UInt32)) : Bus κ :=
  writes.foldl (fun bus (linear, w, value) => (bus.write linear w value).2) bus

/-- Applies the first hook for a call. Gives the callback it requests. -/
def applyHook (point : HookPoint) (index : Nat) : Guest κ Scripted → Option UInt32 × Guest κ Scripted
  | ⟨cpu, bus, host⟩ =>
    match host.hooks.find? fun h => h.point = point ∧ h.index = index with
    | none => (none, ⟨cpu, bus, host⟩)
    | some hook =>
      let bus := storeAll bus hook.writes
      (hook.callback, ⟨{ cpu with eip := hook.eip.getD cpu.eip }, bus, host⟩)

/-- What follows a run of the interpreter. -/
def afterRun (exit : CoreExit) : Guest κ Scripted → CoreExit × Guest κ Scripted
  | ⟨cpu, bus, host⟩ =>
    let index := host.runs
    match applyHook .run index ⟨cpu, bus, { host with runs := index + 1 }⟩ with
    | (callback, ⟨cpu, bus, host⟩) =>
      let exit :=
        match callback with
        | some n => .callback n
        | none => exit
      let cpu := if host.trapSkip then { cpu with trapSkip := true } else cpu
      (exit, ⟨cpu, bus, host⟩)

def runNormal (g : Guest κ Scripted) : Except Abort (CoreExit × Guest κ Scripted) :=
  (onInterpreter Interpreter.runNormal g).map fun (exit, g) => afterRun exit g

def runFull (g : Guest κ Scripted) : Except Abort (CoreExit × Guest κ Scripted) :=
  (onInterpreter Interpreter.runFull g).map fun (exit, g) => afterRun exit g

def raiseException (vector : UInt8) (errorCode : Option UInt32) : Guest κ Scripted → Guest κ Scripted
  | ⟨cpu, bus, host⟩ =>
    let index := host.raises
    let (cpu, interpreter) := Interpreter.raiseException vector errorCode cpu host.interpreter
    (applyHook .raised index ⟨cpu, bus, { host with interpreter, raises := index + 1 }⟩).2

def pageFault (fault : PageFault) : Guest κ Scripted → Guest κ Scripted
  | ⟨cpu, ⟨mem, watch⟩, host⟩ =>
    let host := { host with faults := host.faults.push fault }
    if host.demand || faultLimit < host.faults.size then ⟨cpu, ⟨mem.pageIn (pageOf fault.linear), watch⟩, host⟩
    else raiseException pageFaultVector (some fault.errorCode) ⟨cpu, ⟨mem, watch⟩, host⟩

def platform : Platform Scripted where
  runNormal := runNormal
  runFull := runFull
  raiseException := raiseException
  pageFault := pageFault
  irqPending _ s := s.interpreter.irq

end Scripted

end Recompiler
