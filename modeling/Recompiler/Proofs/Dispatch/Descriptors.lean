import Recompiler.Proofs.Dispatch.Arena

/-! Block descriptors and the links between blocks. In every state that can be reached each descriptor has exactly one
use, and links are known at both of their ends. -/

namespace Recompiler.Machine

open Cache

/-- In every state that can be reached, whether the last operation failed or not, a descriptor is a span, a companion of
a block, or free, and only one of these. The list of free descriptors comes to an end and names none twice. A free
descriptor holds no block, is in no bucket of any monitor, has no link from or to it, and belongs to no block. -/
theorem descriptors_conserved {σ : Type} {p : Platform σ} (hp : p.Confined .free) {m : Machine σ}
    {log : List Compilation} (h : History .free p m log) {r : Resources} (hr : m.core.resources = some r) :
    ∃ spans free : List BlockId,
      Path (fun b => (r.cache.block b).arenaNext) (some firstSpan) spans none ∧
      Path (fun b => (r.cache.block b).freeNext) r.cache.freeHead free none ∧ free.Nodup ∧
      (∀ x < r.cache.blocks.size,
        x ∈ spans ∧ ¬((r.cache.block x).live = true ∧ (r.cache.block x).isCompanion = true) ∧ x ∉ free ∨
        x ∉ spans ∧ ((r.cache.block x).live = true ∧ (r.cache.block x).isCompanion = true) ∧ x ∉ free ∨
        x ∉ spans ∧ ¬((r.cache.block x).live = true ∧ (r.cache.block x).isCompanion = true) ∧ x ∈ free) ∧
      (∀ x ∈ spans, x < r.cache.blocks.size) ∧
      ∀ x ∈ free, x < r.cache.blocks.size ∧ (r.cache.block x).live = false ∧
        (∀ page i, x ∉ (r.cache.monitor page).bucket i) ∧
        (∀ k, r.cache.linkSlot x k = {}) ∧ (∀ a k, (r.cache.linkSlot a k).target ≠ some x) ∧
        (r.cache.block x).companion = none ∧ ∀ a, (r.cache.block a).companion ≠ some x := by
  obtain ⟨r', hr', hhoused⟩ := h.keeps (Housed.upkeep _ fun _ => True) hp fun _ _ => trivial
  obtain rfl : r = r' := Option.some.inj (hr.symm.trans hr')
  have hsound := hhoused.sound
  obtain ⟨spans, free, hpool⟩ := hsound.layout.pool
  have hspan : ∀ x ∈ spans, ¬((r.cache.block x).live = true ∧ (r.cache.block x).isCompanion = true) := by
    rintro x hx ⟨-, hcomp⟩
    rw [hpool.ordinary x hx] at hcomp
    cases hcomp
  have hfree : ∀ x ∈ free, ¬((r.cache.block x).live = true ∧ (r.cache.block x).isCompanion = true) := by
    rintro x hx ⟨hlive, -⟩
    rw [hpool.free_dead x hx] at hlive
    cases hlive
  refine ⟨spans, free, hpool.spanPath, hpool.freePath, hpool.freePath.nodup, fun x hx => ?_, hpool.spans_lt, fun x hx => ?_⟩
  · rcases hpool.placed x hx (by simp) with hs | hf | hcomp
    · exact .inl ⟨hs, hspan x hs, hpool.apart x hs⟩
    · exact .inr (.inr ⟨fun hs => hpool.apart x hs hf, hfree x hf, hf⟩)
    · exact .inr (.inl ⟨fun hs => hspan x hs hcomp, hcomp, fun hf => hfree x hf hcomp⟩)
  · have hdead := hpool.free_dead x hx
    have hnot : ¬r.cache.Runnable x := fun hrun => by
      rw [Runnable, hdead] at hrun
      exact absurd hrun.1 (by simp)
    have hnone := hsound.paired.companion_of_dead hdead
    refine ⟨hpool.free_lt x hx, hdead, fun page i hmem => ?_, hsound.layout.linked.linkSlot_eq_of_not hnot, fun a k hab => ?_,
      hnone, fun a ha => ?_⟩
    · have howner := ((hsound.registry.mem_bucket page i x).mp hmem).1
      rw [live_iff.mpr ⟨page, howner⟩] at hdead
      cases hdead
    · exact hnot (hsound.layout.linked.ends a x k hab).2
    · exact absurd ((hsound.paired.symm a x ha).symm.trans hnone) (by simp)

/-- The four descriptors of a machine with one block in its cache. -/
theorem descriptors_conserved_loop :
    ∃ (m : Machine Interpreter) (log : List Compilation) (r : Resources) (free : List BlockId),
      History .free Interpreter.platform m log ∧ m.core.resources = some r ∧ (r.cache.block 0).live = true ∧
        Path (fun b => (r.cache.block b).freeNext) r.cache.freeHead free none ∧ free.Nodup ∧ 0 ∉ free := by
  obtain ⟨m, log, r, hhistory, hr, hlive, -⟩ := exists_history_loop (R := .free) trivial
  obtain ⟨spans, free, -, hpath, hnodup, -, -, hfree⟩ :=
    descriptors_conserved (Interpreter.platform_confined _) hhistory hr
  refine ⟨m, log, r, free, hhistory, hr, hlive, hpath, hnodup, fun hmem => ?_⟩
  rw [(hfree 0 hmem).2.1] at hlive
  cases hlive

end Recompiler.Machine
