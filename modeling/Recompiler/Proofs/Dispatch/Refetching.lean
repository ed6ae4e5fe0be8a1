import Recompiler.Proofs.Compile.Origin
import Recompiler.Proofs.Dispatch.Fetching
import Recompiler.Proofs.Dispatch.Instructions

/-! Instructions that a block was compiled from, fetched once more. As long as the block is in the cache, the interpreter
finds each of its instructions where it was, with the immediate that stands there now. -/

namespace Recompiler

open Cache Scan

namespace Compilation

variable {k : Compilation} {mem : Memory} {c : Cache} {f : Fetched}

/-- An instruction with the immediate that it reads from memory. -/
theorem current_eq_rebake {paddr : UInt32} {imm : Imm} (hpaddr : f.hotImm = some paddr) (himm : immediateSource f.inst.kind = some imm)
    {size : Width} (hsize : size.bytes = imm.size) (mem : Memory) :
    f.current mem = { f.inst with kind := f.inst.kind.rebake (f.inst.width.extend size (mem.read paddr size)) } := by
  have hfresh : f.fresh mem (.imm imm) = .imm { imm with value := f.inst.width.extend size (mem.read paddr size) } := by
    rw [Fetched.fresh, hpaddr]
    dsimp only
    rw [← hsize, Width.ofBytes?_bytes]
    rfl
  unfold Fetched.current
  unfold immediateSource at himm
  split at himm
  all_goals cases himm
  all_goals
    rename_i hkind
    rw [hkind]
    dsimp only
    rw [hfresh]
    rfl

end Compilation

end Recompiler
