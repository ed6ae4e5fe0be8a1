import Recompiler.Bus
import Recompiler.Guest.Cpu

/-! What the recompiler needs from the machine around it: an interpreter for what is not compiled, delivery of
exceptions, and whether an interrupt waits. -/

namespace Recompiler

/-- What a run hands back to the scheduler. -/
inductive CoreExit where
  /-- Nothing to do; go on with the next slice. -/
  | resume
  /-- Invoke a platform callback. -/
  | callback (n : UInt32)
  deriving DecidableEq, Repr, Inhabited

/-- The emulated machine: processor, memory with its watcher, and the state of the platform. -/
structure Guest (κ σ : Type) where
  cpu : Cpu
  bus : Bus κ
  host : σ

/-- Numbers of the exceptions that the recompiler raises. -/
def divideError : UInt8 := 0
def debugException : UInt8 := 1
def pageFaultVector : UInt8 := 14

/-- A platform with state `σ`. -/
structure Platform (σ : Type) where
  /-- Runs until the cycle budget is used up or a callback is requested; a budget of one is one instruction. -/
  runNormal : {κ : Type} → [Watcher κ] → Guest κ σ → Except Abort (CoreExit × Guest κ σ)
  /-- Like `runNormal`, after an undefined opcode. -/
  runFull : {κ : Type} → [Watcher κ] → Guest κ σ → Except Abort (CoreExit × Guest κ σ)
  raiseException : {κ : Type} → [Watcher κ] → (vector : UInt8) → (errorCode : Option UInt32) → Guest κ σ → Guest κ σ
  pageFault : {κ : Type} → [Watcher κ] → PageFault → Guest κ σ → Guest κ σ
  /-- Whether a maskable interrupt waits. -/
  irqPending : Cpu → σ → Bool

namespace Cycles

/-- A count of cycles less one. -/
def spend (n : Int32) : Except Abort Int32 :=
  if n = Int32.minValue then .error .overflow else .ok (n - 1)

/-- Two counts of cycles together. -/
def total (m n : Int32) : Except Abort Int32 :=
  if (m + n).toInt = m.toInt + n.toInt then .ok (m + n) else .error .overflow

end Cycles

namespace Guest

variable {κ σ : Type}

def setCycles (g : Guest κ σ) (n : Int32) : Guest κ σ :=
  match g with
  | ⟨cpu, bus, host⟩ => ⟨{ cpu with cycles := n }, bus, host⟩

/-- Runs one instruction in the interpreter and charges one cycle. -/
def stepOne [Watcher κ] (p : Platform σ) (g : Guest κ σ) : Except Abort (CoreExit × Guest κ σ) :=
  let old := g.cpu.cycles
  match p.runNormal (g.setCycles 1) with
  | .error abort => .error abort
  | .ok (exit, g) => (Cycles.spend old).map fun left => (exit, g.setCycles left)

end Guest

end Recompiler
