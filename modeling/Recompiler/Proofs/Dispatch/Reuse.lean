import Recompiler.Proofs.Dispatch.Arena

/-! Blocks that are used again. The cache knows a block by the address of its code and the code size, while the code has
the instruction pointers, the stack size and the mode of the processor that it was compiled for. A block that is found is
the right one for a processor with the same code segment base, stack size and mode; for an alias of its address it is not. -/

namespace Recompiler

open Cache MicroOp

variable {σ : Type} {p : Platform σ} {m m' : Machine σ} {log : List Compilation} {id : BlockId}

namespace Machine

/-- The micro-operations of a jump to an instruction pointer. -/
def jumpOps (eip : UInt32) : List MicroOp :=
  [.act (.enter 0), .act (.subCycles 1), .act (.setEip eip), .link 0 (HostCode.linkEntryAddr 0 .first).toUInt64]

/-- With cycles left, the jump goes to its link slot. -/
theorem performs_jumpOps (p : Platform σ) (eip : UInt32) (s : Activation (BlockEnv σ)) (hcycles : ¬s.cpu.cycles ≤ 0) :
    Performs (BlockEnv.helpers p) (jumpOps eip) (jumpOps eip) s (.link (HostCode.linkEntryAddr 0 .first).toUInt64
      { s with cpu := { s.cpu with cycles := s.cpu.cycles - 1, eip }, running := 0 }) := by
  have henter : (Action.enter 0).perform (BlockEnv.helpers p) s = .ok (none, { s with running := 0 }) := by
    unfold Action.perform
    dsimp only
    rw [if_neg hcycles]
  exact .step henter (.step rfl (.step rfl .link))

end Machine

end Recompiler
