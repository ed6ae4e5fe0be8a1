import Recompiler.Dispatch.Core
import Recompiler.Interpreter
import Recompiler.Script.View

/-! Replies to the commands of a script. -/

namespace Recompiler

/-- State of a machine after guest code ran. -/
structure Report where
  cpu : Cpu
  /-- Exceptions that the interpreter recorded since the last report. -/
  raised : List Raised
  /-- Page faults that the recompiler delivered since the last report. -/
  faults : List PageFault
  halted : Bool
  interpreted : Nat
  fullRuns : Nat
  stats : Stats
  deriving DecidableEq, Repr

inductive Reply where
  | nothing
  | number (n : Nat)
  | flag (b : Bool)
  | numbers (ns : List Nat)
  | bytes (bs : List UInt8)
  | fault (f : PageFault)
  | error (e : CoreError)
  /-- The command could not be carried out at all. -/
  | abort
  /-- The command does not apply: no recompiler, no such block, another kind of code. -/
  | refused (reason : String)
  | block (b : BlockView)
  | monitor (m : MonitorView)
  | spans (spans : List SpanView)
  | sources (first second : List BlockId)
  | cache (stats : CacheStats) (active : BlockId) (pages : List UInt32)
  | listing (lines : List (Option (List UInt8)))
  /-- Changed stretches of memory. -/
  | changes (runs : List (Nat × List UInt8))
  | exit (exit : CoreExit) (report : Report)
  | exits (exits : List (Except CoreError CoreExit)) (report : Report)
  | left (code : ExitCode) (report : Report)
  | texts (core : String) (cache : Option String)

end Recompiler
