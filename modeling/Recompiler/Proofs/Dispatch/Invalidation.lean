import Recompiler.Proofs.Dispatch.CheckedStores

/-! Invalidation of a range of a page, and the stores that cause it. Invalidating a range clears the blocks of the page
that need a byte of it, and their other parts, and no other block; it says whether the running block was among them. So
a store of a running block is given up exactly if the plain store would clear that block. -/

namespace Recompiler

namespace Cache

variable {c c' : Cache} {m : MonitorId} {id : BlockId} {first last : Nat} {running : Option BlockId}

/-- Blocks are where they are looked for and know their other parts, links run both ways, and the write maps count the
blocks that need a byte. -/
structure Coherent (c : Cache) : Prop extends Arranged c where
  found : ∀ id n, (c.block id).owner = some n → c.monitorOf (c.monitor n).page = some n
  linked : c.Linked c.Runnable
  calm : c.stats.anomalies = 0
  census : c.Census ∅

theorem Consistent.coherent (h : Consistent c ∅) : Coherent c where
  toArranged := h.toArranged
  found id n howner := (h.watches.byPage _ n).mpr ⟨h.registry.installed id n howner, rfl⟩
  linked := h.layout.linked
  calm := h.calm
  census := h.census

/-- Blocks that are left are on pages that are found as before. -/
theorem Shrinks.found (h : Shrinks c c') (hfound : ∀ id n, (c.block id).owner = some n → c.monitorOf (c.monitor n).page = some n) :
    ∀ id n, (c'.block id).owner = some n → c'.monitorOf (c'.monitor n).page = some n := by
  intro id n howner
  have hcore := h.core id (live_iff.mpr ⟨n, howner⟩)
  have hbyPage : c'.byPage = c.byPage := by
    have hfield := congrArg Cache.byPage h.same.shell
    exact hfield
  rw [monitorOf, hbyPage, Monitor.page_eq_of_core (h.monitor n)]
  exact hfound id n (Block.owner_eq_of_core hcore ▸ howner)

/-- Clearing a block keeps everything coherent. -/
theorem Coherent.clearBlock (h : Coherent c) (hlive : (c.block id).live = true) : Coherent (c.clearBlock id) where
  toArranged := h.toArranged.clearBlock hlive
  found := (Shrinks.clearBlock h.toArranged hlive).found h.found
  linked := h.linked.clearBlock h.toArranged hlive
  calm := by
    rw [(h.clearable hlive).anomalies_clearBlock h.linked (fun x hx => hx.2) fun x _ => h.registry.listed x]
    exact h.calm
  census := h.census.clearBlock h.toArranged hlive fun _ _ => Finset.notMem_empty _

theorem Emptying.coherent (h : Emptying m c c') (hc : Coherent c) : Coherent c' := by
  induction h with
  | refl c => exact hc
  | clear hid _ ih => exact ih (hc.clearBlock (live_iff.mpr ⟨m, hid⟩))

/-- After a range of a watched page has been invalidated, no block of the page has a byte of the range that it does not
read anew when it runs. What was cleared met the range, or is the other part of a block that did. The cache stays
coherent, and the answer says whether the running block was lost. -/
theorem invalidate_complete_and_targeted (h : Coherent c) (hm : (c.monitor m).installed = true) (hlast : last < pageSize)
    {hit : Bool} (hrun : c.invalidate m first last running = (hit, c')) :
    (∀ id, (c'.block id).owner = some m → ∀ i, first ≤ i → i ≤ last → (c'.block id).start ≤ i → i ≤ (c'.block id).last →
      (c'.block id).masked i = true) ∧
    (∀ x, (c.block x).live = true → (c'.block x).live = false →
      ∃ id, (c.block id).owner = some m ∧ (c.block id).start ≤ last ∧ first ≤ (c.block id).last ∧
        (x = id ∨ (c.block id).companion = some x)) ∧
    Coherent c' ∧
    (hit = true ↔ ∃ r, running = some r ∧ (c.block r).live = true ∧ (c'.block r).live = false) := by
  have hspec := invalidate_spec h.toArranged m first last running
  rw [hrun] at hspec
  refine ⟨hspec.spares hm hlast h.census, fun x hlive hdead => ?_, hspec.emptying.coherent h, ?_⟩
  · obtain ⟨id, howner, hover, hpart⟩ := hspec.targeted x hlive hdead
    rw [Block.overlaps, Bool.and_eq_true, decide_eq_true_eq, decide_eq_true_eq] at hover
    exact ⟨id, howner, hover.1, hover.2, hpart⟩
  · rw [hspec.hit_iff]
    exact or_iff_right Bool.false_ne_true

/-- A jump to itself at the start of a page. Changing its second byte ends the block for it. -/
theorem exists_coherent_loop :
    ∃ (m : Machine Interpreter) (log : List Compilation) (r : Resources),
      Machine.History .identity Interpreter.platform m log ∧ m.core.resources = some r ∧ Coherent r.cache ∧
        (r.cache.block 0).live = true ∧ (r.cache.monitor 0).installed = true ∧
        (r.cache.invalidate 0 1 1 (some 0)).1 = true ∧ (r.cache.writeChecked m.mem 1 .w8 0 (some 0)).1 = true := by
  obtain ⟨id, mem, c, code, -, hc, -, -, hhistory⟩ := Machine.exists_compiled
    (show (Machine.onePage 0 [0xEB, 0xFE]).mapped = [] from rfl)
    (show (Machine.onePage 0 [0xEB, 0xFE]).resolve Cpu.flat32.ipLinear false = .ok 0 from Machine.resolve_onePage 0 _ (by decide))
    (by decide +kernel) (by decide +kernel)
    (fun mem c _ => (c.block 0).live && (c.monitor 0).installed && (c.monitor 0).page == 0 &&
      !PageFlag.has (c.monitor 0).flags PageFlag.rom && mem.read 1 .w8 == 0xFE && (c.invalidate 0 1 1 (some 0)).1 &&
      (c.noteStore 0 1 1 (some 0)).1) (by decide +kernel)
  simp only [Bool.and_eq_true, Bool.not_eq_true', beq_iff_eq] at hc
  obtain ⟨⟨⟨⟨⟨⟨hlive, hinst⟩, hpage⟩, hrom⟩, hread⟩, hhit⟩, hnoted⟩ := hc
  obtain ⟨r, hr, htracked⟩ := (hhistory .flat32).keeps Tracked.upkeep (Interpreter.platform_confined _) (by
    simp only [List.mem_singleton, forall_eq]
    decide +kernel)
  cases hr
  have hfound : c.monitorOf 0 = some 0 := (htracked.consistent.watches.byPage 0 0).mpr ⟨hinst, hpage⟩
  have hpageOf : pageOf 1 = 0 := by decide
  have hoffset : pageOffset 1 = 1 := by decide
  have hstore : (c.writeChecked mem 1 .w8 0 (some 0)).1 = true := by
    simp [writeChecked, hpageOf, hoffset, hfound, hrom, hread, Width.bytes, hnoted]
  exact ⟨_, _, _, hhistory .flat32, rfl, htracked.consistent.coherent, hlive, hinst, hhit, hstore⟩

/-- The running block is lost when its second byte is invalidated. -/
theorem invalidate_complete_and_targeted_loop :
    ∃ (m : Machine Interpreter) (log : List Compilation) (r : Resources) (c' : Cache),
      Machine.History .identity Interpreter.platform m log ∧ m.core.resources = some r ∧ Coherent r.cache ∧
        (r.cache.monitor 0).installed = true ∧ r.cache.invalidate 0 1 1 (some 0) = (true, c') ∧
        (r.cache.block 0).live = true ∧ (c'.block 0).live = false ∧ Coherent c' := by
  obtain ⟨m, log, r, hhistory, hr, hcoherent, hlive, hinst, hhit, -⟩ := exists_coherent_loop
  have hrun : r.cache.invalidate 0 1 1 (some 0) = (true, (r.cache.invalidate 0 1 1 (some 0)).2) := Prod.ext hhit rfl
  obtain ⟨-, -, hcoherent', hlost⟩ := invalidate_complete_and_targeted hcoherent hinst (by decide) hrun
  obtain ⟨x, hx, -, hdead⟩ := hlost.mp rfl
  cases hx
  exact ⟨m, log, r, _, hhistory, hr, hcoherent, hinst, hrun, hlive, hdead, hcoherent'⟩

/-! ### Stores of a running block -/

/-- Noting a store hits the running block if it ends it. -/
theorem noteStore_hit_iff (h : Arranged c) (m : MonitorId) (offset len : Nat) (running : Option BlockId) :
    (c.noteStore m offset len running).1 = true ↔ Lost running c (c.noteStore m offset len running).2 := by
  unfold noteStore
  by_cases hcode : (c.monitor m).hasCode offset len = true
  · rw [if_pos hcode]
    dsimp only
    generalize hf : (fun mon : Monitor => ({ mon with overwrites := _ } : Monitor)) = f
    have hcosmetic := Cosmetic.modifyMonitor c m (f := f) fun mon => by rw [← hf]; rfl
    have hspec := invalidate_spec (h.congr hcosmetic) m offset (offset + len - 1) running
    rw [hspec.hit_iff, or_iff_right Bool.false_ne_true]
    -- The count of overwrites is no part of a block.
    rfl
  · rw [if_neg hcode]
    split
    · dsimp only
      split
      · refine iff_of_false Bool.false_ne_true ?_
        rintro ⟨r, -, hlive, hdead⟩
        rw [(PagesApart.release _ m).block] at hdead
        exact absurd (hlive.symm.trans hdead) (by simp)
      · exact iff_of_false Bool.false_ne_true (not_lost_self running c)
    · exact iff_of_false Bool.false_ne_true (not_lost_self running c)

/-- A store of a running block hits the block if the plain store would end it. -/
theorem writeChecked_hit_iff (h : Arranged c) (mem : Memory) (paddr : UInt32) (w : Width) (value : UInt32) (running : Option BlockId) :
    (c.writeChecked mem paddr w value running).1 = true ↔ Lost running c (c.write mem paddr w value).2 := by
  have hquiet : false = true ↔ Lost running c c := iff_of_false Bool.false_ne_true (not_lost_self running c)
  unfold writeChecked write
  split
  · exact hquiet
  · rename_i m hm
    split
    · exact hquiet
    · split
      · exact hquiet
      · have hnoted := noteStore_hit_iff h m (pageOffset paddr) w.bytes running
        rw [noteStore_snd] at hnoted
        dsimp only
        rw [← hnoted]
        cases (c.noteStore m (pageOffset paddr) w.bytes running).1 <;> simp

/-- A store of a running block is the plain store if the block is still there after that. Otherwise it is given up:
memory stays as it is, and the cache is the one of the plain store. -/
theorem writeChecked_eq_write_or_lost (h : Arranged c) (mem : Memory) (paddr : UInt32) (w : Width) (value : UInt32) {r : BlockId}
    (hlive : (c.block r).live = true) :
    (c.writeChecked mem paddr w value (some r) = (false, c.write mem paddr w value) ∧
      ((c.write mem paddr w value).2.block r).live = true) ∨
    (c.writeChecked mem paddr w value (some r) = (true, mem, (c.write mem paddr w value).2) ∧
      ((c.write mem paddr w value).2.block r).live = false) := by
  have hiff := writeChecked_hit_iff h mem paddr w value (some r)
  obtain hmiss | hhit := writeChecked_cases c mem paddr w value (some r)
  · refine .inl ⟨hmiss, ?_⟩
    rw [hmiss] at hiff
    by_contra hdead
    exact Bool.false_ne_true (hiff.mpr ⟨r, rfl, hlive, Bool.eq_false_iff.mpr hdead⟩)
  · refine .inr ⟨hhit, ?_⟩
    rw [hhit] at hiff
    obtain ⟨x, hx, -, hdead⟩ := hiff.mp rfl
    cases hx
    exact hdead

/-- The block stores to its own second byte: nothing is stored, and the block is gone. -/
theorem writeChecked_eq_write_or_lost_loop :
    ∃ (m : Machine Interpreter) (log : List Compilation) (r : Resources),
      Machine.History .identity Interpreter.platform m log ∧ m.core.resources = some r ∧ Arranged r.cache ∧
        (r.cache.block 0).live = true ∧
        r.cache.writeChecked m.mem 1 .w8 0 (some 0) = (true, m.mem, (r.cache.write m.mem 1 .w8 0).2) ∧
        ((r.cache.write m.mem 1 .w8 0).2.block 0).live = false := by
  obtain ⟨m, log, r, hhistory, hr, hcoherent, hlive, -, -, hstore⟩ := exists_coherent_loop
  obtain ⟨hmiss, -⟩ | ⟨hhit, hdead⟩ := writeChecked_eq_write_or_lost hcoherent.toArranged m.mem 1 .w8 0 hlive
  · rw [hmiss] at hstore
    exact absurd hstore Bool.false_ne_true
  · exact ⟨m, log, r, hhistory, hr, hcoherent.toArranged, hlive, hhit, hdead⟩

end Cache

end Recompiler
