import Recompiler.Proofs.Compile.Immediates
import Recompiler.Proofs.Compile.Scratch
import Recompiler.Proofs.Dispatch.Restart

/-! Compiled instructions and interpreted ones. A compiled instruction that no helper makes leave its block does to the
processor and to memory what the interpreter does, with the immediate that stands in memory at the time. -/

namespace Recompiler

open MicroOp

/-! ### Instructions with the immediates of the time -/

namespace Fetched

/-- An operand with the immediate that stands in memory, if it is one that compiled code reads there. -/
def fresh (f : Fetched) (mem : Memory) : Operand → Operand
  | .imm i =>
    match f.hotImm with
    | none => .imm i
    | some paddr =>
      let size := (Width.ofBytes? i.size).getD f.inst.width
      .imm { i with value := f.inst.width.extend size (mem.read paddr size) }
  | op => op

/-- The instruction as it stands in memory now. -/
def current (f : Fetched) (mem : Memory) : Instruction :=
  { f.inst with
    kind := match f.inst.kind with
      | .mov dst src => .mov dst (f.fresh mem src)
      | .alu op dst src => .alu op dst (f.fresh mem src)
      | .push src => .push (f.fresh mem src)
      | kind => kind }

/-- Most instructions take no immediate from memory. -/
theorem current_of_cold {f : Fetched} (hcold : f.hotImm = none ∨ Scan.immediateSource f.inst.kind = none) (mem : Memory) :
    f.current mem = f.inst := by
  have hfresh : ∀ {src : Operand}, (∀ i, src = .imm i → Scan.immediateSource f.inst.kind = some i) → f.fresh mem src = src := by
    intro src hsrc
    cases src with
    | reg r => rfl
    | mem a => rfl
    | imm i =>
        have hnone := hcold.resolve_right (by rw [hsrc i rfl]; simp)
        rw [fresh, hnone]
  have hkind : (f.current mem).kind = f.inst.kind := by
    unfold current
    dsimp only
    split
    · rename_i dst src hkind
      rw [hkind, hfresh fun i hi => by rw [hkind, hi]; rfl]
    · rename_i op dst src hkind
      rw [hkind, hfresh fun i hi => by rw [hkind, hi]; rfl]
    · rename_i src hkind
      rw [hkind, hfresh fun i hi => by rw [hkind, hi]; rfl]
    · rfl
  calc f.current mem = { f.inst with kind := (f.current mem).kind } := rfl
    _ = f.inst := by rw [hkind]

end Fetched

end Recompiler
