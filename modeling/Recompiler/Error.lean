import Recompiler.Code.Assembly
import Recompiler.Settings

/-! Errors of the recompiler. The guest sees none of them. -/

namespace Recompiler

inductive CoreError where
  | settings (e : SettingsError)
  | emit (e : EmitError)
  /-- No free block descriptor is left. -/
  | outOfBlocks
  /-- More host code was emitted than the span can hold. -/
  | overrun (written capacity : Nat)
  /-- A block left with a number that is no exit code. -/
  | invalidReturn (raw : UInt32)
  deriving DecidableEq, Repr, Inhabited

namespace CoreError

def message : CoreError → String
  | settings e => e.message
  | emit e => e.message
  | outOfBlocks => "ran out of cache blocks"
  | overrun written capacity => s!"cache block overrun: {written} bytes emitted into a {capacity}-byte span"
  | invalidReturn raw => s!"translated block returned invalid exit code {raw}"

end CoreError

/-- Reads the exit code that a block left with. -/
def ExitCode.decode (raw : UInt32) : Except CoreError ExitCode :=
  match ofRaw? raw with
  | some code => .ok code
  | none => .error (.invalidReturn raw)

end Recompiler
