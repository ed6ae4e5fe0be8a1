import Recompiler.Proofs.Code.Standing
import Recompiler.Proofs.Dispatch.Arena

/-! The code of every block stands for the micro-operations of the last compilation into its descriptor, whatever kind of
code the host runs. -/

namespace Recompiler

open Cache

variable {log : List Compilation} {c c' : Cache} {code code' : HostCode}

/-- Spans start at different places. -/
theorem Cache.Pool.codeStart_inj {spans free : List BlockId} {loose : Option BlockId}
    (h : c.Pool (fun b => (c.block b).arenaNext) (fun b => (c.block b).codeSize) spans free loose) {x y : BlockId}
    (hx : x ∈ spans) (hy : y ∈ spans) (heq : (c.block x).codeStart = (c.block y).codeStart) : x = y := by
  by_contra hne
  have hpos : ∀ z ∈ spans, 0 < c.capacity z := by
    intro z hz
    obtain ⟨-, hsize, -⟩ := h.tiled.bounds hz
    unfold capacity
    dsimp only
    split <;> omega
  have hx' := hpos x hx
  have hy' := hpos y hy
  have hapart := h.apart_windows hx hy hne
  omega

/-- Blocks have their code at different addresses. -/
theorem Cache.Sound.codeAddr_inj (h : c.Sound) {x y : BlockId} (hx : c.Runnable x) (hy : c.Runnable y)
    (heq : c.codeAddr x = c.codeAddr y) : x = y := by
  obtain ⟨spans, free, hpool⟩ := h.layout.pool
  exact hpool.codeStart_inj (hpool.span_of_live x hx) (hpool.span_of_live y hy) (Nat.add_left_cancel heq)

/-- Where machine code runs, it is known of each block with code of its own what the code does, and of the stubs. -/
structure Programmed (log : List Compilation) (c : Cache) (code : HostCode) : Prop extends Housed log c code where
  exits : code.emitter.backend = .native → ∀ slot, ∃ offset < Arena.blocksStart,
    code.stubs.exits.get slot = code.base + offset ∧
      code.programs[code.stubs.exits.get slot]? = some [.exit (.ofSlot slot.index)]
  programs : code.emitter.backend = .native → ∀ x k, c.Runnable x → log.find? (·.block = x) = some k →
    code.programs[code.base + (c.block x).codeStart]? = some k.ops

namespace Programmed

theorem narrow (h : Programmed log c code) (hc : c'.Sound) (hn : Narrows c c') : Programmed log c' code := by
  refine ⟨h.toHoused.narrow hc hn, h.exits, fun hbackend x k hx hfind => ?_⟩
  have hcore := hn.core x hx.1
  have hrun : c.Runnable x := ⟨Block.live_eq_of_core hcore ▸ hx.1, Block.isCompanion_eq_of_core hcore ▸ hx.2⟩
  rw [Block.codeStart_eq_of_core hcore]
  exact h.programs hbackend x k hrun hfind

theorem compile {k : Compilation} (h : Programmed log k.cache k.code) (hpending : k.Pending) {r : Except CoreError BlockId}
    {mem' : Memory} (hr : k.result = .ok (r, mem', c', code')) : Programmed (k :: log) c' code' := by
  have hlaid := hpending.laid h.sound hr
  have hwrote := hlaid.wrote
  have hopen := Compilation.opened_spec h.sound
  refine ⟨h.toHoused.compile hpending hr, fun hbackend slot => ?_, fun hbackend x k' hx hfind => ?_⟩
  · rw [hwrote.emitter] at hbackend
    obtain ⟨offset, hlt, haddr, hprogram⟩ := h.exits hbackend slot
    have hfirst := Housed.first_le h.sound
    rw [h.first] at hfirst
    rw [hwrote.stubs, hwrote.base]
    refine ⟨offset, hlt, haddr, (hwrote.programs _ ?_).trans hprogram⟩
    omega
  · rw [hwrote.emitter] at hbackend
    rw [hwrote.base]
    by_cases hxk : x = k.block
    · -- The block that was just compiled.
      subst hxk
      rw [List.find?_cons_of_pos (by simp)] at hfind
      obtain rfl := Option.some.inj hfind
      rcases hlaid.result with ⟨-, hdead⟩ | ⟨-, -, hstart, written, hemit, -, -⟩
      · rw [Runnable, hdead] at hx
        exact absurd hx.1 (by simp)
      · rw [hstart]
        exact HostCode.programs_emitBlock hbackend hemit
    · -- A block that was there before: its span starts elsewhere.
      rw [List.find?_cons_of_neg (by simpa using Ne.symm hxk)] at hfind
      have hopened := hlaid.other x hxk hx
      have hrun : k.opened.Runnable x :=
        ⟨Block.live_eq_of_core hopened ▸ hx.1, Block.isCompanion_eq_of_core hopened ▸ hx.2⟩
      have hcore : (k.opened.block x).core = (k.cache.block x).core := hopen.shrinks.core x hrun.1
      have hprogram := h.programs hbackend x k' ⟨Block.live_eq_of_core hcore ▸ hrun.1, Block.isCompanion_eq_of_core hcore ▸ hrun.2⟩ hfind
      rw [← Block.codeStart_eq_of_core hcore] at hprogram
      rw [Block.codeStart_eq_of_core hopened]
      refine (hwrote.programs _ fun heq => hxk ?_).trans hprogram
      obtain ⟨spans, free, hpool⟩ := hopen.sound.layout.pool
      have hblock : k.block ∈ spans := hopen.active ▸ hpool.active
      exact hpool.codeStart_inj (hpool.span_of_live x hrun) hblock (Nat.add_left_cancel heq)

theorem upkeep (R : Regime) (good : Compilation → Prop) : Upkeep R good fun log _ c code => Programmed log c code where
  start := by
    intro settings mem code hmem hcheck hcode
    have hhoused := (Housed.upkeep R good).start hmem hcheck hcode
    refine ⟨hhoused, fun hbackend slot => ?_, fun hbackend x k hx hfind => by cases hfind⟩
    exact HostCode.exits_create hcode (HostCode.backend_create hcode ▸ hbackend) slot
  sound h := h.sound
  change h _ := h
  stored h hs := h.narrow hs.sound hs.narrows
  paged h _ hp := h.narrow hp.sound hp.narrows
  link h hid htarget hfree := h.narrow (h.sound.link hid htarget hfree) (.link _ _ _ _)
  compile h hpending _ hr := h.compile hpending hr

/-- The code of a block stands for the micro-operations of the last compilation into its descriptor. -/
theorem stands (h : Programmed log c code) (haddr : code.base + code.arena.size < 2 ^ 64) {x : BlockId} (hx : c.Runnable x) :
    ∃ k, log.find? (·.block = x) = some k ∧ MicroOp.WellFormed k.ops ∧ code.Stands (c.codeAddr x) k.ops := by
  obtain ⟨later, k, earlier, hlog, hk, hnewest, -⟩ := h.intact x hx
  have hfind : log.find? (·.block = x) = some k := by
    rw [hlog, List.find?_append, List.find?_eq_none.2 (by simpa using hnewest)]
    simp [hk]
  refine ⟨k, hfind, k.wellFormed_ops, ?_⟩
  unfold HostCode.Stands
  rw [codeAddr, h.base]
  cases hbackend : code.emitter.backend with
  | portable =>
      obtain ⟨k', hfind', -, hstands⟩ := h.toHoused.stands hbackend haddr hx
      obtain rfl := Option.some.inj (hfind.symm.trans hfind')
      exact ⟨_, rfl, hstands⟩
  | native => exact h.programs hbackend x k hx hfind

/-- The stubs stand before all blocks. -/
theorem exists_stub (h : Programmed log c code) (haddr : code.base + code.arena.size < 2 ^ 64) (slot : Slot) :
    ∃ offset < Arena.blocksStart, c.stubs.get slot = code.base + offset ∧ code.Exits (c.stubs.get slot) slot := by
  rw [h.stubs]
  unfold HostCode.Exits HostCode.Stands
  cases hbackend : code.emitter.backend with
  | portable =>
      obtain ⟨offset, hentry, hend, hholds⟩ := h.shared hbackend slot
      have hsize : 0 < Threaded.encoding.codeSize [.exit (.ofSlot slot.index)] := by cases slot <;> decide
      have hroom := h.room
      rw [h.first] at hroom
      exact ⟨offset, by omega, hentry, offset, hentry,
        HostCode.stands_of_holds (by omega) ⟨⟨_, rfl, rfl⟩, by simp⟩ hholds⟩
  | native => exact h.exits hbackend slot

/-- No block has its code where a stub stands. -/
theorem stub_ne_codeAddr (h : Programmed log c code) (haddr : code.base + code.arena.size < 2 ^ 64) (slot : Slot) {x : BlockId}
    (hx : c.Runnable x) : c.stubs.get slot ≠ c.codeAddr x := by
  obtain ⟨offset, hlt, hstub, -⟩ := h.exists_stub haddr slot
  obtain ⟨spans, free, hpool⟩ := h.sound.layout.pool
  obtain ⟨hstart, -⟩ := hpool.tiled.bounds (hpool.span_of_live x hx)
  rw [hstub, codeAddr, h.base]
  rw [h.first] at hstart
  omega

end Programmed

end Recompiler
