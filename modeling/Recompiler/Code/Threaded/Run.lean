import Recompiler.Code.Execution
import Recompiler.Code.Threaded.Decode

/-! Running threaded code. Malformed code, and a jump below the start of the code, leave with an exit code that no
block uses. -/

namespace Recompiler.Threaded

/-- Runs from an offset until the code leaves. `base` is the host address of the code's first byte. -/
def run {ε : Type} (h : Helpers ε) (code : ByteArray) (base : Nat) :
    Nat → (pc : Nat) → Activation ε → Except Abort (UInt32 × Activation ε)
  | 0, _, _ => .error .outOfFuel
  | fuel + 1, pc, s =>
    match fetch code pc with
    | none => .ok (malformedExit, s)
    | some (.act a, next) =>
      match a.perform h s with
      | .error abort => .error abort
      | .ok (some code, s) => .ok (code.raw, s)
      | .ok (none, s) => run h code base fuel next s
    | some (.jumpIf cond target, next) =>
      if cond.holds s.cpu.eflags then
        if base ≤ target then run h code base fuel (target - base) s else .ok (malformedExit, s)
      else run h code base fuel next s
    | some (.exit raw, _) => .ok (raw, s)
    | some (.link _ entry, _) =>
      match h.linkTarget entry s.env with
      | .error abort => .error abort
      | .ok target =>
        if base ≤ target then run h code base fuel (target - base) s else .ok (malformedExit, s)

end Recompiler.Threaded
