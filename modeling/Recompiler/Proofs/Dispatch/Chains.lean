import Recompiler.Proofs.Dispatch.Programs

/-! Chains of blocks. Running a block is a pass through it; where the pass ends at a link, a pass through the block that the
slot leads to follows, and so on. Nothing is compiled or linked on the way, so that every block that is reached was linked
when the first one was entered. -/

namespace Recompiler

open Cache MicroOp Relation

variable {σ : Type} {p : Platform σ} {R : Regime} {log : List Compilation} {code : HostCode}

/-! ### Helpers -/

namespace BlockEnv

theorem pageFault_keepsSize (hp : p.KeepsSize) {α : Type} (fault : PageFault) :
    HelperCall.KeepsSize (pageFault p fault : HelperCall (BlockEnv σ) α) := by
  rintro cpu ⟨bus, host, stats⟩ r cpu' env' hr
  cases hr
  exact hp.pageFault fault ⟨cpu, bus, host⟩

theorem load_keepsSize (hp : p.KeepsSize) (linear : UInt32) (w : Width) : HelperCall.KeepsSize (load p linear w) := by
  intro cpu env r cpu' env' hr
  unfold load at hr
  cases hload : env.bus.mem.loadLinear linear w with
  | ok value =>
      simp only [hload] at hr
      cases hr
      rfl
  | error fault =>
      simp only [hload] at hr
      exact pageFault_keepsSize hp _ _ _ _ _ _ hr

theorem store_keepsSize (hp : p.KeepsSize) (linear : UInt32) (w : Width) (value : UInt32) (running : Option BlockId) :
    HelperCall.KeepsSize (store p linear w value running) := by
  rintro cpu ⟨bus, host, stats⟩ r cpu' env' hr
  unfold store at hr
  dsimp only at hr
  split at hr
  · exact pageFault_keepsSize hp _ _ _ _ _ _ hr
  · cases hr
    rfl
  · cases hr
    rfl

theorem divide_keepsSize (hp : p.KeepsSize) (w : Width) (signed : Bool) (divisor : UInt32) :
    HelperCall.KeepsSize (divide p w signed divisor) := by
  rintro cpu ⟨bus, host, stats⟩ r cpu' env' hr
  unfold divide at hr
  cases hdiv : cpu.divide w signed divisor with
  | some cpu₁ =>
      simp only [hdiv] at hr
      cases hr
      exact Interpreter.codeBig_divide hdiv
  | none =>
      simp only [hdiv] at hr
      cases hr
      exact hp.raiseException divideError none ⟨cpu, bus, host⟩

theorem interpret_keepsSize (hp : p.KeepsSize) (nextEip : UInt32) (running : Option BlockId) :
    HelperCall.KeepsSize (interpret p nextEip running) := by
  rintro cpu ⟨bus, host, stats⟩ r cpu' env' hr
  unfold interpret at hr
  dsimp only at hr
  cases hrun : p.runNormal ⟨{ cpu with cycles := 1 }, bus, host⟩ with
  | error abort =>
      simp only [hrun] at hr
      cases hr
  | ok out =>
      obtain ⟨exit, cpu₁, bus₁, host₁⟩ := out
      have hsize : cpu₁.codeBig = cpu.codeBig := hp.runNormal _ hrun
      simp only [hrun] at hr
      cases running with
      | none =>
          dsimp only at hr
          split at hr <;> cases hr <;> exact hsize
      | some id =>
          dsimp only at hr
          split at hr
          · cases hr
          · split at hr <;> cases hr <;> exact hsize

theorem iret_keepsSize (hp : p.KeepsSize) (w : Width) : HelperCall.KeepsSize (iret p w) := by
  intro cpu env r cpu' env' hr
  unfold iret at hr
  cases hpop : popValues cpu env.bus.mem w 3 (cpu.reg cpu.stackReg) with
  | error fault =>
      simp only [hpop] at hr
      exact pageFault_keepsSize hp _ _ _ _ _ _ hr
  | ok out =>
      simp only [hpop] at hr
      cases hr
      rfl

theorem helpers_keepsSize (hp : p.KeepsSize) : (helpers p).KeepsSize :=
  ⟨load_keepsSize hp, store_keepsSize hp, divide_keepsSize hp, interpret_keepsSize hp, iret_keepsSize hp⟩

/-- The entry of a slot holds the address that the slot leads to. -/
theorem linkTarget_eq {env : BlockEnv σ} (h : env.bus.watch.Sound) {x : Nat} (hx : x < env.bus.watch.blocks.size)
    (hblocks : env.bus.watch.blocks.size < 2 ^ 32) (slot : Slot) :
    linkTarget (HostCode.linkEntryAddr x slot).toUInt64.toNat env =
      .ok (env.bus.watch.slotAddr slot (env.bus.watch.linkSlot x slot).target) := by
  have hindex : slot.index < 2 := by cases slot <;> decide
  have htable := h.layout.linked.tableSize
  have haddr : (HostCode.linkEntryAddr x slot).toUInt64.toNat = HostCode.linkTableBase + 8 * (2 * x + slot.index) := by
    unfold HostCode.linkEntryAddr HostCode.linkTableBase
    rw [UInt64.toNat_ofNat']
    omega
  have hentry : HostCode.linkEntryIndex? (HostCode.linkTableBase + 8 * (2 * x + slot.index)) = some (2 * x + slot.index) := by
    unfold HostCode.linkEntryIndex?
    rw [if_pos (by omega)]
    congr 1
    omega
  have hget : env.bus.watch.linkTable[2 * x + slot.index]? = some (env.bus.watch.linkEntry x slot) := by
    rw [linkEntry, Array.getD_eq_getD_getElem?, Array.getElem?_eq_getElem (by omega)]
    rfl
  rw [linkTarget, haddr, hentry, Option.bind_some, hget, h.layout.linked.entry x hx]

end BlockEnv

/-- A slot that leads to the code of a block is linked to it. -/
theorem Programmed.target_eq {c : Cache} (h : Programmed log c code) (haddr : code.base + code.arena.size < 2 ^ 64) {x y : BlockId}
    {slot : Slot} (hy : c.Runnable y) (heq : c.slotAddr slot (c.linkSlot x slot).target = c.codeAddr y) :
    (c.linkSlot x slot).target = some y := by
  cases hnext : (c.linkSlot x slot).target with
  | some z =>
      rw [hnext] at heq
      rw [h.sound.codeAddr_inj (h.sound.layout.linked.ends _ _ _ hnext).2 hy heq]
  | none =>
      rw [hnext] at heq
      exact absurd heq (h.stub_ne_codeAddr haddr slot hy)

/-! ### Passes and hops -/

/-- Since the cache was `c`, blocks were cleared and links cut at most. -/
structure Cache.Ebbs (c c' : Cache) : Prop extends Narrows c c', Fades c c' where
  sound : c'.Sound

theorem Cache.Ebbs.durable (R : Regime) (c₀ : Cache) : Durable R fun _ _ c _ => Ebbs c₀ c where
  sound h := h.sound
  change h _ := h
  stored h hs := ⟨h.toNarrows.trans hs.narrows, h.toFades.trans hs.toFades, hs.sound⟩

/-- A block that is about to run, with the state that it finds. -/
abbrev Entry (σ : Type) := BlockId × Activation (BlockEnv σ)

/-- A block hands over to another: a pass through its micro-operations ends at a link to the code of the other one. -/
def Hop (p : Platform σ) (log : List Compilation) (a a' : Entry σ) : Prop :=
  ∃ k entry, log.find? (·.block = a.1) = some k ∧ Performs (BlockEnv.helpers p) k.ops k.ops a.2 (.link entry a'.2) ∧
    a'.2.env.bus.watch.Runnable a'.1 ∧ BlockEnv.linkTarget entry.toNat a'.2.env = .ok (a'.2.env.bus.watch.codeAddr a'.1)

/-- A block leaves, with an exit code of its own or, from a slot that is not linked, with that of the stub. -/
inductive Leaves (p : Platform σ) (log : List Compilation) (a : Entry σ) : ExitCode → Activation (BlockEnv σ) → Prop where
  | exit {k : Compilation} {exit : ExitCode} {s : Activation (BlockEnv σ)} (hk : log.find? (·.block = a.1) = some k)
      (hpass : Performs (BlockEnv.helpers p) k.ops k.ops a.2 (.exit exit s)) : Leaves p log a exit s
  | stub {k : Compilation} {entry : UInt64} {slot : Slot} {s : Activation (BlockEnv σ)} (hk : log.find? (·.block = a.1) = some k)
      (hpass : Performs (BlockEnv.helpers p) k.ops k.ops a.2 (.link entry s))
      (htarget : BlockEnv.linkTarget entry.toNat s.env = .ok (s.env.bus.watch.stubs.get slot)) :
      Leaves p log a (.ofSlot slot.index) s

/-- What is known when a block is about to run in code of the size `b`, since the first one was entered with the cache
`c`. -/
structure Underway (c : Cache) (b : Bool) (a : Entry σ) : Prop where
  runnable : c.Runnable a.1
  size : a.2.cpu.codeBig = b
  ebbs : Ebbs c a.2.env.bus.watch

namespace Underway

variable {c : Cache} {b : Bool} {a a' : Entry σ} {k : Compilation} {d : Departure (BlockEnv σ)}

theorem pass (h : Underway c b a) (hp : p.Confined R) (hsize : p.KeepsSize) (hk : log.find? (·.block = a.1) = some k)
    (hd : Performs (BlockEnv.helpers p) k.ops k.ops a.2 d) :
    d.Holds fun s => s.cpu.codeBig = b ∧ Ebbs c s.env.bus.watch ∧ s.running = a.1.toUInt32 := by
  have hblock := Tracked.block_eq hk
  obtain ⟨tail, hops, hinner⟩ := Lowering.exists_block_eq (Compile.context k.cpu k.block) k.trace
  have hops' : k.ops = .act (.enter a.1.toUInt32) :: tail := by
    rw [← hblock]
    exact hops
  have hkeep : (BlockEnv.helpers p).Keeps fun env => Ebbs c env.bus.watch :=
    @BlockEnv.helpers_keeps σ p R _ [] k.code (Ebbs.durable R c) hp
  rw [hops'] at hd
  have hholds := hd.entered (BlockEnv.helpers_keepsSize hsize) hkeep (fun b' hb' => (hinner _ hb').elim) h.ebbs
  rwa [h.size] at hholds

/-- A pass that ends at a link goes where the slot leads to. -/
theorem linkTarget (h : Underway c b a) (hp : p.Confined R) (hsize : p.KeepsSize) (hblocks : c.blocks.size < 2 ^ 32)
    (hk : log.find? (·.block = a.1) = some k) {entry : UInt64} {s : Activation (BlockEnv σ)}
    (hd : Performs (BlockEnv.helpers p) k.ops k.ops a.2 (.link entry s)) :
    ∃ slot, BlockEnv.linkTarget entry.toNat s.env =
      .ok (s.env.bus.watch.slotAddr slot (s.env.bus.watch.linkSlot a.1 slot).target) := by
  have hblock := Tracked.block_eq hk
  obtain ⟨-, hebbs, -⟩ := h.pass hp hsize hk hd
  obtain ⟨tail, hops, hinner⟩ := Lowering.exists_block_eq (Compile.context k.cpu k.block) k.trace
  obtain ⟨i, hmem⟩ := hd.link_mem (List.Subset.refl _)
  rw [Compilation.ops, hops] at hmem
  obtain ⟨slot, hentry⟩ := hinner _ ((List.mem_cons.1 hmem).resolve_left (by simp))
  rw [hblock] at hentry
  refine ⟨slot, ?_⟩
  rw [hentry]
  exact BlockEnv.linkTarget_eq hebbs.sound (hebbs.size ▸ h.runnable.lt) (hebbs.size ▸ hblocks) slot

/-- A block that is reached was linked to when the first one was entered. -/
theorem hop (h : Underway c b a) (hp : p.Confined R) (hsize : p.KeepsSize) (hcode : Programmed log c code)
    (haddr : code.base + code.arena.size < 2 ^ 64) (hblocks : c.blocks.size < 2 ^ 32) (hhop : Hop p log a a') :
    Underway c b a' ∧ ∃ slot, (c.linkSlot a.1 slot).target = some a'.1 := by
  obtain ⟨k, entry, hk, hd, hrun, htarget⟩ := hhop
  obtain ⟨hbig, hebbs, -⟩ := h.pass hp hsize hk hd
  obtain ⟨slot, hslot⟩ := h.linkTarget hp hsize hblocks hk hd
  have hrun' : c.Runnable a'.1 := hebbs.runnable hrun.1 hrun.2
  exact ⟨⟨hrun', hbig, hebbs⟩, slot, hebbs.target _ _ _ ((hcode.narrow hebbs.sound hebbs.toNarrows).target_eq haddr hrun
    (Except.ok.inj (hslot.symm.trans htarget)))⟩

/-- A chain of hops follows links that were there when the first block was entered. -/
theorem chain (h : Underway c b a) (hp : p.Confined R) (hsize : p.KeepsSize) (hcode : Programmed log c code)
    (haddr : code.base + code.arena.size < 2 ^ 64) (hblocks : c.blocks.size < 2 ^ 32) (hchain : ReflTransGen (Hop p log) a a') :
    Underway c b a' ∧ ReflTransGen (fun x y => ∃ slot, (c.linkSlot x slot).target = some y) a.1 a'.1 := by
  induction hchain with
  | refl => exact ⟨h, .refl⟩
  | tail _ hhop ih =>
      obtain ⟨hnext, hlink⟩ := ih.1.hop hp hsize hcode haddr hblocks hhop
      exact ⟨hnext, ih.2.tail hlink⟩

/-- A run is a chain of hops, and what the last block does to leave. The induction is on the fuel: what happens behind a
link takes less of it. -/
theorem exists_chain (h : Underway c b a) (hp : p.Confined R) (hsize : p.KeepsSize) (hcode : Programmed log c code)
    (haddr : code.base + code.arena.size < 2 ^ 64) (hblocks : c.blocks.size < 2 ^ 32) {fuel : Nat} {raw : UInt32}
    {s : Activation (BlockEnv σ)} (hrun : code.run (BlockEnv.helpers p) fuel (c.codeAddr a.1) a.2 = .ok (raw, s)) :
    ∃ a' exit, ReflTransGen (Hop p log) a a' ∧ Leaves p log a' exit s ∧ raw = exit.raw := by
  induction fuel using Nat.strong_induction_on generalizing a with
  | _ fuel ih =>
      obtain ⟨k, hk, hops, hstands⟩ := hcode.stands haddr h.runnable
      obtain ⟨d, hd, hends⟩ := hstands.performs hops (by simp) hrun
      cases d with
      | exit exit s₁ =>
          cases hends
          exact ⟨a, exit, .refl, .exit hk hd, rfl⟩
      | abort cause => cases hends
      | link entry s₁ =>
          obtain ⟨hbig, hebbs, -⟩ := h.pass hp hsize hk hd
          obtain ⟨slot, hslot⟩ := h.linkTarget hp hsize hblocks hk hd
          unfold Departure.EndsWithin at hends
          have htarget : (BlockEnv.helpers p).linkTarget = BlockEnv.linkTarget := rfl
          simp only [htarget, hslot] at hends
          obtain ⟨fuel', hfuel, hrest⟩ := hends
          cases hnext : (s₁.env.bus.watch.linkSlot a.1 slot).target with
          | some y =>
              rw [hnext] at hslot hrest
              have hy := (hebbs.sound.layout.linked.ends _ _ _ hnext).2
              have hunder : Underway c b (y, s₁) := ⟨hebbs.runnable hy.1 hy.2, hbig, hebbs⟩
              have haddr' : s₁.env.bus.watch.slotAddr slot (some y) = c.codeAddr y := hebbs.codeAddr hy.1
              rw [haddr'] at hrest
              obtain ⟨a', exit, hchain, hleaves, hraw⟩ := ih fuel' hfuel hunder hrest
              exact ⟨a', exit, .head ⟨k, entry, hk, hd, hy, hslot⟩ hchain, hleaves, hraw⟩
          | none =>
              rw [hnext] at hslot hrest
              have hstub : s₁.env.bus.watch.slotAddr slot none = c.stubs.get slot := hebbs.stubs ▸ rfl
              rw [hstub] at hrest
              obtain ⟨-, -, -, hexits⟩ := hcode.exists_stub haddr slot
              have hout := hexits.run (by simp) hrest
              cases hout
              exact ⟨a, .ofSlot slot.index, .refl, .stub hk hd hslot, rfl⟩

/-- What the last block of a chain of hops does, the run of the first one comes to. -/
theorem exists_run_of_chain (h : Underway c b a) (hp : p.Confined R) (hsize : p.KeepsSize) (hcode : Programmed log c code)
    (haddr : code.base + code.arena.size < 2 ^ 64) (hblocks : c.blocks.size < 2 ^ 32) (hchain : ReflTransGen (Hop p log) a a')
    {r : Except Abort (UInt32 × Activation (BlockEnv σ))}
    (hlast : ∃ fuel, code.run (BlockEnv.helpers p) fuel (c.codeAddr a'.1) a'.2 = r) :
    ∃ fuel, code.run (BlockEnv.helpers p) fuel (c.codeAddr a.1) a.2 = r := by
  induction hchain using ReflTransGen.head_induction_on with
  | refl => exact hlast
  | @head a a₁ hhop _ ih =>
      obtain ⟨k, hk, hops, hstands⟩ := hcode.stands haddr h.runnable
      obtain ⟨hnext, -⟩ := h.hop hp hsize hcode haddr hblocks hhop
      obtain ⟨k', entry, hk', hpass, hrun, hlink⟩ := hhop
      obtain rfl := Option.some.inj (hk.symm.trans hk')
      have htarget : (BlockEnv.helpers p).linkTarget = BlockEnv.linkTarget := rfl
      refine hstands.exists_run hops hpass ?_
      unfold Departure.EndsAs
      simp only [htarget, hlink]
      rw [hnext.ebbs.codeAddr hrun.1]
      exact ih hnext

/-- A chain of hops after which a block leaves is a run. -/
theorem exists_run (h : Underway c b a) (hp : p.Confined R) (hsize : p.KeepsSize) (hcode : Programmed log c code)
    (haddr : code.base + code.arena.size < 2 ^ 64) (hblocks : c.blocks.size < 2 ^ 32) (hchain : ReflTransGen (Hop p log) a a')
    {exit : ExitCode} {s : Activation (BlockEnv σ)} (hleaves : Leaves p log a' exit s) :
    ∃ fuel, code.run (BlockEnv.helpers p) fuel (c.codeAddr a.1) a.2 = .ok (exit.raw, s) := by
  obtain ⟨h', -⟩ := h.chain hp hsize hcode haddr hblocks hchain
  refine h.exists_run_of_chain hp hsize hcode haddr hblocks hchain ?_
  obtain ⟨k, hk, hops, hstands⟩ := hcode.stands haddr h'.runnable
  cases hleaves with
  | exit hk' hpass =>
      obtain rfl := Option.some.inj (hk.symm.trans hk')
      exact hstands.exists_run hops hpass rfl
  | @stub _ entry slot _ hk' hpass hstub =>
      obtain rfl := Option.some.inj (hk.symm.trans hk')
      obtain ⟨-, hebbs, -⟩ := h'.pass hp hsize hk hpass
      obtain ⟨-, -, -, hexits⟩ := hcode.exists_stub haddr slot
      have htarget : (BlockEnv.helpers p).linkTarget = BlockEnv.linkTarget := rfl
      refine hstands.exists_run hops hpass ?_
      unfold Departure.EndsAs
      simp only [htarget, hstub]
      rw [hebbs.stubs]
      exact hexits.exists_run _ _

/-- The block that leaves is the one that was running. -/
theorem leaves (h : Underway c b a) (hp : p.Confined R) (hsize : p.KeepsSize) {exit : ExitCode} {s : Activation (BlockEnv σ)}
    (hleaves : Leaves p log a exit s) : s.cpu.codeBig = b ∧ Ebbs c s.env.bus.watch ∧ s.running = a.1.toUInt32 := by
  cases hleaves with
  | exit hk hpass => exact h.pass hp hsize hk hpass
  | stub hk hpass _ => exact h.pass hp hsize hk hpass

end Underway

/-- No block has the number that stands for none. -/
theorem Activation.runningBlock_of_running {s : Activation (BlockEnv σ)} {id n : Nat} (hrunning : s.running = id.toUInt32) (hid : id < n)
    (hn : n < 2 ^ 32) : s.runningBlock = some id := by
  have hlt := Nat.lt_trans hid hn
  have hnot := Nat.lt_of_lt_of_le hid (Nat.le_pred_of_lt hn)
  have hnumber : id.toUInt32.toNat = id := by
    rw [UInt32.toNat_ofNat']
    exact Nat.mod_eq_of_lt hlt
  rw [Activation.runningBlock, hrunning, if_neg, hnumber]
  intro heq
  rw [heq] at hnumber
  exact absurd hnumber (Nat.ne_of_gt hnot)

namespace Engine

variable {e e' : Engine σ} {id : BlockId}

/-- The state that a block finds when the dispatcher enters it. -/
def activation (e : Engine σ) : Activation (BlockEnv σ) where
  cpu := e.guest.cpu
  env := ⟨e.guest.bus, e.guest.host, { e.stats with blockRuns := e.stats.blockRuns + 1 }⟩

theorem underway (hs : e.cache.Sound) (hid : e.cache.Runnable id) : Underway e.cache e.guest.cpu.codeBig (id, e.activation) :=
  ⟨hid, rfl, .refl _, .refl _, hs⟩

/-- Entering a block runs its code. -/
theorem enter_eq_ok {fuel : Nat} {r : Except CoreError BlockExit} : e.enter p fuel id = .ok (r, e') ↔
    ∃ raw s, e.code.run (BlockEnv.helpers p) fuel (e.cache.codeAddr id) e.activation = .ok (raw, s) ∧
      r = (ExitCode.decode raw).map (fun code => ⟨code, s.runningBlock, s.callback⟩) ∧
      e' = ⟨⟨s.cpu, s.env.bus, s.env.host⟩, e.code, s.env.stats, e.trap⟩ := by
  obtain ⟨⟨cpu, bus, host⟩, code, stats, trap⟩ := e
  unfold enter execute activation cache
  dsimp only
  cases hrun : code.run (BlockEnv.helpers p) fuel (bus.watch.codeAddr id)
      { cpu, env := ⟨bus, host, { stats with blockRuns := stats.blockRuns + 1 }⟩ } with
  | error abort => simp
  | ok out =>
      obtain ⟨raw, cpu₁, ⟨bus₁, host₁, stats₁⟩, temps, running, callback⟩ := out
      constructor
      · intro hr
        cases hr
        exact ⟨raw, _, rfl, rfl, rfl⟩
      · rintro ⟨raw, s, hs, rfl, rfl⟩
        cases hs
        rfl

/-- The last block of a chain is the one that leaves. -/
theorem runningBlock_eq (hp : p.Confined R) (hsize : p.KeepsSize) {c : Cache} {b : Bool} {a : Entry σ} (h : Underway c b a)
    (hblocks : c.blocks.size < 2 ^ 32) {exit : ExitCode} {s : Activation (BlockEnv σ)} (hleaves : Leaves p log a exit s) :
    s.runningBlock = some a.1 :=
  Activation.runningBlock_of_running (h.leaves hp hsize hleaves).2.2 h.runnable.lt hblocks

/-- A block that is entered starts a chain, and the last block of it is the one that leaves. -/
theorem exists_enter_iff (hp : p.Confined R) (hsize : p.KeepsSize) (hcode : Programmed log e.cache e.code)
    (haddr : e.code.base + e.code.arena.size < 2 ^ 64) (hblocks : e.cache.blocks.size < 2 ^ 32) (hid : e.cache.Runnable id)
    {r : Except CoreError BlockExit} : (∃ fuel, e.enter p fuel id = .ok (r, e')) ↔
    ∃ a exit s, ReflTransGen (Hop p log) (id, e.activation) a ∧ Leaves p log a exit s ∧ r = .ok ⟨exit, some a.1, s.callback⟩ ∧
      e' = ⟨⟨s.cpu, s.env.bus, s.env.host⟩, e.code, s.env.stats, e.trap⟩ := by
  have hunder := underway hcode.sound hid
  have hresult : ∀ {a exit s}, ReflTransGen (Hop p log) (id, e.activation) a → Leaves p log a exit s →
      (ExitCode.decode exit.raw).map (fun code => (⟨code, s.runningBlock, s.callback⟩ : BlockExit)) =
        .ok ⟨exit, some a.1, s.callback⟩ := by
    intro a exit s hchain hleaves
    obtain ⟨hunder', -⟩ := hunder.chain hp hsize hcode haddr hblocks hchain
    rw [runningBlock_eq hp hsize hunder' hblocks hleaves, ExitCode.decode, ExitCode.ofRaw?_raw]
    rfl
  constructor
  · rintro ⟨fuel, hr⟩
    obtain ⟨raw, s, hrun, rfl, rfl⟩ := enter_eq_ok.mp hr
    obtain ⟨a, exit, hchain, hleaves, rfl⟩ := hunder.exists_chain hp hsize hcode haddr hblocks hrun
    exact ⟨a, exit, s, hchain, hleaves, hresult hchain hleaves, rfl⟩
  · rintro ⟨a, exit, s, hchain, hleaves, rfl, rfl⟩
    obtain ⟨fuel, hrun⟩ := hunder.exists_run hp hsize hcode haddr hblocks hchain hleaves
    exact ⟨fuel, enter_eq_ok.mpr ⟨_, s, hrun, (hresult hchain hleaves).symm, rfl⟩⟩

end Engine

end Recompiler
