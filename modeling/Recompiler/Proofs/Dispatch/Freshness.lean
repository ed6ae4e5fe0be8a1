import Recompiler.Proofs.Dispatch.WriteMaps

/-! Compiled code is never stale. What a block was compiled from is in memory as long as the block is in the cache, on
both pages of the block, apart from the immediates that the block reads when it runs. -/

namespace Recompiler.Machine

open Cache

/-- In every state that can be reached without compiling a block that has no first instruction, each block comes from
the last compilation into its descriptor. Every byte of every instruction of that compilation's trace is what it was
then, unless it is in the write mask of the block. -/
theorem byte_eq_byte_compiled {σ : Type} {p : Platform σ} (hp : p.Confined .identity) {m : Machine σ} {log : List Compilation}
    (h : History .identity p m log) (hdec : ∀ k ∈ log, k.decodes = true) {r : Resources} (hr : m.core.resources = some r)
    {id : BlockId} (hlive : (r.cache.block id).live = true) (hord : (r.cache.block id).isCompanion = false) :
    ∃ k, log.find? (·.block = id) = some k ∧ k.trace.insts ≠ [] ∧
      ∀ f ∈ k.trace.insts, ∀ i < f.inst.len, ¬r.cache.Reads id (k.address f i) →
        m.mem.byte (k.address f i) = k.mem.byte (k.address f i) := by
  obtain ⟨r', hr', htracked⟩ := h.keeps Tracked.upkeep hp hdec
  obtain rfl : r = r' := Option.some.inj (hr.symm.trans hr')
  obtain ⟨k, hfind, hk⟩ := htracked.origin id hlive hord
  obtain rfl := Tracked.block_eq hfind
  exact ⟨k, hfind, hk.nonempty, fun f hf i hi hread => (hk.same f hf i hi).resolve_left hread⟩

/-- A page that holds a jump to itself, with the block for it. -/
theorem byte_eq_byte_compiled_loop :
    ∃ (m : Machine Interpreter) (log : List Compilation) (res : Resources),
      History .identity Interpreter.platform m log ∧ (∀ k ∈ log, k.decodes = true) ∧ m.core.resources = some res ∧
        (res.cache.block 0).live = true ∧ (res.cache.block 0).isCompanion = false ∧
        ∃ k, log.find? (·.block = 0) = some k ∧ k.trace.insts ≠ [] ∧
          ∀ f ∈ k.trace.insts, ∀ i < f.inst.len, ¬res.cache.Reads 0 (k.address f i) →
            m.mem.byte (k.address f i) = k.mem.byte (k.address f i) := by
  obtain ⟨id, mem, c, code, hcreate, hc⟩ := exists_created
    (r := Compile.createBlock .flat32 0 (onePage 0 [0xEB, 0xFE]) watchedCache scantCode)
    (fun _ c _ => (c.block 0).live && !(c.block 0).isCompanion) (by decide +kernel)
  obtain ⟨hprepare, hlog⟩ := prepareBlock_onePage (by decide) rfl hcreate
  have hhistory : History .identity Interpreter.platform _ _ := .prepare (history_onePageMachine _ rfl _) hprepare
  rw [hlog, List.append_nil] at hhistory
  have hdec : ∀ k ∈ [(⟨.flat32, 0, onePage 0 [0xEB, 0xFE], watchedCache, scantCode⟩ : Compilation)], k.decodes = true := by
    simp only [List.mem_singleton, forall_eq]
    decide +kernel
  rw [Bool.and_eq_true, Bool.not_eq_true'] at hc
  exact ⟨_, _, ⟨c, code⟩, hhistory, hdec, rfl, hc.1, hc.2,
    byte_eq_byte_compiled (Interpreter.platform_confined _) hhistory hdec (r := ⟨c, code⟩) rfl hc.1 hc.2⟩

end Recompiler.Machine
