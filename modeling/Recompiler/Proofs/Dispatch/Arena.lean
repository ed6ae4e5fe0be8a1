import Recompiler.Proofs.Compile.Layout
import Recompiler.Proofs.Compile.Lowered
import Recompiler.Proofs.Dispatch.WriteMaps

/-! The arena. In every state that can be reached the spans fill the block area, a block that is opened has room, and the
code of a block is what its compilation wrote: no later compilation writes where it stands. Pages may be remapped, and
memory may change in any way. -/

namespace Recompiler

open Cache

variable {log : List Compilation} {c c' : Cache} {code code' : HostCode}

namespace Compilation

variable (k : Compilation)

/-- The place and the mode that the block is lowered for. -/
def context : LoweringContext :=
  Compile.context k.cpu k.block

/-- The micro-operations of the block. -/
def ops : List MicroOp :=
  Lowering.block (Compile.context k.cpu k.block) k.trace

theorem follows : Scan.Follows k.cpu.codeBig k.cpu.eip k.trace.insts k.trace.stop := by
  unfold trace
  split
  · rename_i hout
    exact Scan.follows_of_take hout
  · exact .inl rfl

theorem shaped_ops : Lowering.Shaped k.ops :=
  Lowering.shaped_block _ k.follows

theorem wellFormed_ops : MicroOp.WellFormed k.ops :=
  Lowering.wellFormed_of_shaped k.shaped_ops

end Compilation

/-- The code of the block of a compilation stands where it was written, and the later compilations write elsewhere. -/
structure Compilation.Stands (k : Compilation) (later : List Compilation) (c : Cache) (code : HostCode) : Prop where
  start : (c.block k.block).codeStart = k.start
  bytes : ∃ written code₁, k.emission = .ok (.ok written, code₁) ∧ written ≤ k.room ∧ written ≤ c.capacity k.block ∧
    (∀ j, k.start ≤ j → j < k.start + written → code.arena.bytes.data[j]? = code₁.arena.bytes.data[j]?) ∧
    ∀ k' ∈ later, k'.start + k'.room ≤ k.start ∨ k.start + written ≤ k'.start

/-- The cache is sound, the arena is large enough for it, and every block with code of its own is what the last
compilation into its descriptor wrote. -/
structure Housed (log : List Compilation) (c : Cache) (code : HostCode) : Prop where
  sound : c.Sound
  host : ∀ k ∈ log, k.code.base = code.base ∧ k.code.emitter = code.emitter
  base : c.arenaBase = code.base
  first : c.blocksStart = Arena.blocksStart
  stubs : c.stubs = code.stubs.exits
  shared : code.emitter.backend = .portable → ∀ slot, code.StubStands slot
  room : c.blocksStart + c.settings.cacheSize + c.settings.maxBlockSize ≤ code.arena.size
  intact : ∀ x, c.Runnable x → ∃ later k earlier, log = later ++ k :: earlier ∧ k.block = x ∧ (∀ k' ∈ later, k'.block ≠ x) ∧
    k.Stands later c code

namespace Housed

/-- Blocks are at most cleared. -/
theorem narrow (h : Housed log c code) (hc : c'.Sound) (hn : Narrows c c') : Housed log c' code := by
  have hsettings : c'.settings = c.settings := by
    have hfield := congrArg Cache.settings hn.fixed
    exact hfield
  have hblocks : c'.blocksStart = c.blocksStart := by
    have hfield := congrArg Cache.blocksStart hn.fixed
    exact hfield
  have hbase : c'.arenaBase = c.arenaBase := by
    have hfield := congrArg Cache.arenaBase hn.fixed
    exact hfield
  have hstubs : c'.stubs = c.stubs := by
    have hfield := congrArg Cache.stubs hn.fixed
    exact hfield
  refine ⟨hc, h.host, hbase.trans h.base, hblocks.trans h.first, hstubs.trans h.stubs, h.shared, ?_, fun x hx => ?_⟩
  · rw [hblocks, hsettings]
    exact h.room
  · have hcore := hn.core x hx.1
    obtain ⟨later, k, earlier, hlog, rfl, hnewest, hstart, written, code₁, hemit, hroom, hfit, hbytes⟩ :=
      h.intact x ⟨Block.live_eq_of_core hcore ▸ hx.1, Block.isCompanion_eq_of_core hcore ▸ hx.2⟩
    refine ⟨later, k, earlier, hlog, rfl, hnewest, (Block.codeStart_eq_of_core hcore).trans hstart, written, code₁, hemit,
      hroom, ?_, hbytes⟩
    rw [capacity_eq_of_place (Block.place_eq_of_core hcore) hsettings]
    exact hfit

/-- The window that a compilation writes to has no byte in common with the code of another block. -/
theorem apart {k : Compilation} (hc : k.cache.Sound) {x : BlockId} (hx : k.opened.Runnable x) (hne : x ≠ k.block) :
    k.start + k.room ≤ (k.opened.block x).codeStart ∨ (k.opened.block x).codeStart + k.opened.capacity x ≤ k.start := by
  have hopen := Compilation.opened_spec hc
  obtain ⟨spans, free, hp⟩ := hopen.sound.layout.pool
  have hblock : k.block ∈ spans := hopen.active ▸ hp.active
  exact hp.apart_windows hblock (hp.span_of_live x hx) (Ne.symm hne)

/-- Compilations write behind the shared code. -/
theorem first_le {k : Compilation} (hc : k.cache.Sound) : k.cache.blocksStart ≤ k.start := by
  have hopen := Compilation.opened_spec hc
  obtain ⟨spans, free, hp⟩ := hopen.sound.layout.pool
  have hblock : k.block ∈ spans := hopen.active ▸ hp.active
  have hfirst : k.opened.blocksStart = k.cache.blocksStart := hopen.shrinks.same.blocksStart
  rw [← hfirst]
  exact (hp.tiled.bounds hblock).1

theorem compile {k : Compilation} (h : Housed log k.cache k.code) (hpending : k.Pending) {r : Except CoreError BlockId}
    {mem' : Memory} (hr : k.result = .ok (r, mem', c', code')) : Housed (k :: log) c' code' := by
  have hlaid := hpending.laid h.sound hr
  have hopen := Compilation.opened_spec h.sound
  have hsettings : c'.settings = k.cache.settings := by
    have hfield := congrArg Cache.settings hlaid.fixed
    exact hfield
  have hblocks : c'.blocksStart = k.cache.blocksStart := by
    have hfield := congrArg Cache.blocksStart hlaid.fixed
    exact hfield
  have hbase : c'.arenaBase = k.cache.arenaBase := by
    have hfield := congrArg Cache.arenaBase hlaid.fixed
    exact hfield
  have hstubs : c'.stubs = k.cache.stubs := by
    have hfield := congrArg Cache.stubs hlaid.fixed
    exact hfield
  refine ⟨hlaid.sound, fun k' hk' => ?_, ?_, hblocks.trans h.first, ?_, fun hbackend slot => ?_, ?_, fun x hx => ?_⟩
  · rw [hlaid.wrote.base, hlaid.wrote.emitter]
    rcases List.mem_cons.1 hk' with rfl | hk'
    · exact ⟨rfl, rfl⟩
    · exact h.host k' hk'
  · rw [hbase, hlaid.wrote.base]
    exact h.base
  · rw [hstubs, hlaid.wrote.stubs]
    exact h.stubs
  · rw [hlaid.wrote.emitter] at hbackend
    exact (h.shared hbackend slot).wrote hlaid.wrote (h.first ▸ first_le h.sound)
  · rw [hblocks, hsettings, hlaid.wrote.size]
    exact h.room
  · by_cases hxk : x = k.block
    · -- The block that was just compiled.
      rcases hlaid.result with ⟨-, hdead⟩ | ⟨-, -, hstart, written, hemit, hroom, hfit⟩
      · rw [hxk, Runnable, hdead] at hx
        exact absurd hx.1 (by simp)
      · exact ⟨[], k, log, rfl, hxk.symm, by simp, hstart, written, code', hemit, hroom, hfit, fun _ _ _ => rfl, by simp⟩
    · -- A block that was there before: its code lies outside the window.
      have hopened := hlaid.other x hxk hx
      have hrun : k.opened.Runnable x :=
        ⟨Block.live_eq_of_core hopened ▸ hx.1, Block.isCompanion_eq_of_core hopened ▸ hx.2⟩
      have hcore : (k.opened.block x).core = (k.cache.block x).core := hopen.shrinks.core x hrun.1
      obtain ⟨later, k₀, earlier, hlog, rfl, hnewest, hstart, written, code₁, hemit, hroom, hfit, hbytes, hlater⟩ :=
        h.intact x ⟨Block.live_eq_of_core hcore ▸ hrun.1, Block.isCompanion_eq_of_core hcore ▸ hrun.2⟩
      have hplace := Block.place_eq_of_core hopened
      have hcapacity : k.opened.capacity k₀.block = k.cache.capacity k₀.block :=
        capacity_eq_of_place (Block.place_eq_of_core hcore) hopen.shrinks.same.settings
      have hapart : k.start + k.room ≤ k₀.start ∨ k₀.start + written ≤ k.start := by
        have hwindows := apart h.sound hrun hxk
        rw [Block.codeStart_eq_of_core hcore, hstart, hcapacity] at hwindows
        omega
      refine ⟨k :: later, k₀, earlier, by rw [hlog]; rfl, rfl, ?_, ?_, written, code₁, hemit, hroom, ?_, fun j hlow hhigh => ?_, ?_⟩
      · simp only [List.mem_cons, forall_eq_or_imp]
        exact ⟨Ne.symm hxk, hnewest⟩
      · rw [Block.codeStart_eq_of_core hopened, Block.codeStart_eq_of_core hcore, hstart]
      · have hsame : c'.settings = k.opened.settings := hsettings.trans hopen.shrinks.same.settings.symm
        rw [capacity_eq_of_place hplace hsame, hcapacity]
        exact hfit
      · rw [hlaid.wrote.outside j (by omega)]
        exact hbytes j hlow hhigh
      · simp only [List.mem_cons, forall_eq_or_imp]
        exact ⟨hapart, hlater⟩

theorem upkeep (R : Regime) (good : Compilation → Prop) : Upkeep R good fun log _ c code => Housed log c code where
  start := by
    intro settings mem code _ hcheck hcode
    have hconsistent := consistent_create hcheck code.base Arena.blocksStart code.stubs.exits
    refine ⟨hconsistent.toSound, by simp, rfl, rfl, rfl, fun hbackend => ?_, HostCode.size_create hcode, fun x hx => ?_⟩
    · exact HostCode.stubStands_create hcode (HostCode.backend_create hcode ▸ hbackend)
    have hlive := hx.1
    rw [Block.live, owner_create] at hlive
    cases hlive
  sound h := h.sound
  change h _ := h
  stored h hs := h.narrow hs.sound hs.narrows
  paged h _ hp := h.narrow hp.sound hp.narrows
  link h hid htarget hfree := h.narrow (h.sound.link hid htarget hfree) (.link _ _ _ _)
  compile h hpending _ hr := h.compile hpending hr

/-- On a portable host the code of a block stands for the micro-operations of the last compilation into its descriptor. -/
theorem stands (h : Housed log c code) (hbackend : code.emitter.backend = .portable) (haddr : code.base + code.arena.size < 2 ^ 64)
    {x : BlockId} (hx : c.Runnable x) :
    ∃ k, log.find? (·.block = x) = some k ∧ MicroOp.WellFormed k.ops ∧
      Threaded.Stands code.arena.bytes code.base (c.block x).codeStart k.ops := by
  obtain ⟨later, k, earlier, hlog, rfl, hnewest, hstart, written, code₁, hemit, hroom, hfit, hbytes, -⟩ := h.intact x hx
  obtain ⟨hbase, hemitter⟩ := h.host k (by rw [hlog]; simp)
  have hops := k.wellFormed_ops
  refine ⟨k, ?_, hops, ?_⟩
  · rw [hlog, List.find?_append, List.find?_eq_none.2 (by simpa using hnewest)]
    simp
  · have hcontains := HostCode.contains_of_emitBlock hemit
    have hlabels : ∀ l, .bind l ∈ k.ops → l < Lowering.labels k.trace := fun _ => Lowering.lt_labels _
    obtain ⟨code₂, hemit₂, hholds⟩ := HostCode.exists_emitBlock (hemitter ▸ hbackend) hcontains hlabels hops
    obtain ⟨rfl, rfl⟩ : Threaded.encoding.codeSize k.ops = written ∧ code₂ = code₁ := by
      have heq := hemit₂.symm.trans hemit
      simpa using heq
    have hend : (c.block k.block).codeStart + c.capacity k.block ≤ code.arena.size := by
      obtain ⟨spans, free, hp⟩ := h.sound.layout.pool
      exact (hp.end_le (hp.span_of_live _ hx)).trans h.room
    rw [hstart] at hend ⊢
    refine HostCode.stands_of_holds (by omega) hops ?_
    rw [← hbase]
    refine (hholds hroom).congr fun j _ hj => ?_
    rw [Threaded.length_image] at hj
    exact hbytes (k.start + j) (by omega) (by omega)

end Housed

namespace Machine

/-- In every state that can be reached, the spans from the first one on fill the block area back to back, and the cursor
stands on one of them. A span that is opened has room for the largest block, inside the arena. The code of a block that
is still in the cache is what its compilation wrote: later compilations write to windows that have no byte in common with
it, and to nothing outside their windows. -/
theorem spans_fill_and_code_stands {σ : Type} {p : Platform σ} (hp : p.Confined .free) {m : Machine σ} {log : List Compilation}
    (h : History .free p m log) {r : Resources} (hr : m.core.resources = some r) :
    (∃ spans : List BlockId, Path (fun b => (r.cache.block b).arenaNext) (some firstSpan) spans none ∧ spans.Nodup ∧
      Tiles (fun b => (r.cache.block b).codeStart) (fun b => (r.cache.block b).codeSize) r.cache.blocksStart spans
        (r.cache.blocksStart + r.cache.settings.cacheSize) ∧
      (spans.map fun b => (r.cache.block b).codeSize).sum = r.cache.settings.cacheSize ∧ r.cache.active ∈ spans) ∧
    (∀ id c, r.cache.openBlock = (id, c) → c.settings.maxBlockSize ≤ (c.block id).codeSize ∧
      c.settings.maxBlockSize ≤ c.capacity id ∧ (c.block id).codeStart + c.capacity id ≤ r.code.arena.size) ∧
    ∀ x, (r.cache.block x).live = true → (r.cache.block x).isCompanion = false →
      ∃ later k earlier written code, log = later ++ k :: earlier ∧ k.block = x ∧
        k.emission = .ok (.ok written, code) ∧ (r.cache.block x).codeStart = k.start ∧
        (∀ j, k.start ≤ j → j < k.start + written → r.code.arena.bytes.data[j]? = code.arena.bytes.data[j]?) ∧
        ∀ k' ∈ later, (k'.start + k'.room ≤ k.start ∨ k.start + written ≤ k'.start) ∧
          ∀ out code', k'.emission = .ok (out, code') → ∀ j, j < k'.start ∨ k'.start + k'.room ≤ j →
            code'.arena.bytes.data[j]? = k'.code.arena.bytes.data[j]? := by
  obtain ⟨r', hr', hhoused⟩ := h.keeps (Housed.upkeep _ fun _ => True) hp fun _ _ => trivial
  obtain rfl : r = r' := Option.some.inj (hr.symm.trans hr')
  refine ⟨?_, fun id c hopen => ?_, fun x hlive hord => ?_⟩
  · obtain ⟨spans, free, hpool⟩ := hhoused.sound.layout.pool
    have hsum := hpool.tiled.add_sum_eq
    exact ⟨spans, hpool.spanPath, hpool.spanPath.nodup, hpool.tiled, by omega, hpool.active⟩
  · have hopened := openBlock_spec hhoused.sound
    rw [hopen] at hopened
    dsimp only at hopened
    obtain ⟨spans, free, hpool⟩ := hopened.sound.layout.pool
    have hend := hpool.end_le (hopened.active ▸ hpool.active)
    have hcapacity : (c.block id).codeSize ≤ c.capacity id := by
      unfold capacity
      dsimp only
      split <;> omega
    have hsame := hopened.shrinks.same
    have hsettings : c.settings = r.cache.settings := hsame.settings
    have hblocks : c.blocksStart = r.cache.blocksStart := hsame.blocksStart
    refine ⟨hopened.room, hopened.room.trans hcapacity, hend.trans ?_⟩
    rw [hsettings, hblocks]
    exact hhoused.room
  · obtain ⟨later, k, earlier, hlog, hk, -, hstart, written, code, hemit, -, -, hbytes, hlater⟩ := hhoused.intact x ⟨hlive, hord⟩
    refine ⟨later, k, earlier, written, code, hlog, hk, hemit, hk ▸ hstart, hbytes, fun k' hk' => ⟨hlater k' hk', ?_⟩⟩
    intro out code' hout
    exact (HostCode.wrote_emitBlock hout).outside

/-- The block for a jump to itself: the spans have the whole area, and its code is what was written. -/
theorem spans_fill_and_code_stands_loop :
    ∃ (m : Machine Interpreter) (log : List Compilation) (r : Resources),
      History .free Interpreter.platform m log ∧ m.core.resources = some r ∧ (r.cache.block 0).live = true ∧
        (∃ spans : List BlockId, Path (fun b => (r.cache.block b).arenaNext) (some firstSpan) spans none ∧
          (spans.map fun b => (r.cache.block b).codeSize).sum = r.cache.settings.cacheSize) ∧
        ∃ k ∈ log, ∃ written code, k.block = 0 ∧ k.emission = .ok (.ok written, code) ∧
          ∀ j, k.start ≤ j → j < k.start + written → r.code.arena.bytes.data[j]? = code.arena.bytes.data[j]? := by
  obtain ⟨m, log, r, hhistory, hr, hlive, hord⟩ := exists_history_loop (R := .free) trivial
  obtain ⟨⟨spans, hpath, -, -, hsum, -⟩, -, hblocks⟩ :=
    spans_fill_and_code_stands (Interpreter.platform_confined _) hhistory hr
  obtain ⟨later, k, earlier, written, code, rfl, hk, hemit, -, hbytes, -⟩ := hblocks 0 hlive hord
  exact ⟨m, _, r, hhistory, hr, hlive, ⟨spans, hpath, hsum⟩, k, by simp, written, code, hk, hemit, hbytes⟩

/-- The first compilation, with the block in the arena. -/
theorem exists_compiled_housed {mem : Memory} {cpu : Cpu} {paddr : UInt32} (hmapped : mem.mapped = [])
    (hresolve : mem.resolve cpu.ipLinear false = .ok paddr) (hflags : mem.pageFlags (pageOf paddr) = PageFlag.ram)
    (hdec : (scantCompilation mem cpu paddr).decodes = true) (P : Memory → Cache → HostCode → Bool)
    (h : (match (scantCompilation mem cpu paddr).result with | .ok (.ok _, mem', c, code) => P mem' c code | _ => false) = true) :
    ∃ mem' c code, (scantCompilation mem cpu paddr).result = .ok (.ok (scantCompilation mem cpu paddr).block, mem', c, code) ∧
      P mem' c code = true ∧ mem'.unreleased = mem.unreleased ∧ Housed [scantCompilation mem cpu paddr] c code ∧
      code.emitter.backend = .portable ∧ code.base + code.arena.size < 2 ^ 64 ∧
      ∀ cpu', History .identity Interpreter.platform
        ⟨⟨scantSettings, some ⟨c, code⟩, false, { compilations := 1 }⟩, cpu', mem', {}⟩ [scantCompilation mem cpu paddr] := by
  obtain ⟨id, mem', c, code, hcreate, hc, hdue, hmem, hhistory⟩ := exists_compiled hmapped hresolve hflags hdec P h
  obtain ⟨r, hr, hhoused⟩ := (hhistory cpu).keeps (Housed.upkeep _ fun _ => True) (Interpreter.platform_confined _) fun _ _ => trivial
  cases hr
  have hwrote := (hdue.toPending.laid hdue.consistent.toSound hcreate).wrote
  have hid : id = (scantCompilation mem cpu paddr).block := by
    obtain ⟨⟨err, herr⟩, -⟩ | ⟨hok, -⟩ := hdue.toPending.formed hdue.consistent.toSound hcreate
    · cases herr
    · exact Except.ok.inj hok
  refine ⟨mem', c, code, hid ▸ hcreate, hc, hmem, hhoused, ?_, ?_, hhistory⟩
  · rw [hwrote.emitter]
    exact (by decide +kernel : scantCode.emitter.backend = .portable)
  · rw [hwrote.base, hwrote.size]
    exact (by decide +kernel : scantCode.base + scantCode.arena.size < 2 ^ 64)

end Machine

/-- Entering a block whose pass leaves with an exit code. -/
theorem Housed.exists_enter {σ : Type} {p : Platform σ} (h : Housed log c code) (hbackend : code.emitter.backend = .portable)
    (haddr : code.base + code.arena.size < 2 ^ 64) {id : BlockId} (hrunnable : c.Runnable id) {k : Compilation}
    (hk : log.find? (·.block = id) = some k) {cpu : Cpu} {mem : Memory} {host : σ} (stats : Stats) {exit : ExitCode}
    {s : Activation (BlockEnv σ)}
    (hperf : MicroOp.Performs (BlockEnv.helpers p) k.ops k.ops
      { cpu, env := ⟨⟨mem, c⟩, host, { stats with blockRuns := stats.blockRuns + 1 }⟩ } (.exit exit s)) (trap : Bool) :
    ∃ fuel, Engine.enter p fuel id ⟨⟨cpu, ⟨mem, c⟩, host⟩, code, stats, trap⟩ =
      .ok (.ok ⟨exit, s.runningBlock, s.callback⟩, ⟨⟨s.cpu, s.env.bus, s.env.host⟩, code, s.env.stats, trap⟩) := by
  obtain ⟨k', hk', hformed, hstands⟩ := h.stands hbackend haddr hrunnable
  obtain rfl : k = k' := Option.some.inj (hk.symm.trans hk')
  obtain ⟨fuel, hrun⟩ := (HostCode.exists_run_iff_performs hbackend hstands hformed _ _ (by simp)).2 ⟨_, hperf, rfl⟩
  have hentry : c.codeAddr id = code.base + (c.block id).codeStart := by rw [codeAddr, h.base]
  refine ⟨fuel, ?_⟩
  simp only [Engine.enter, Engine.execute, hentry]
  rw [hrun]
  simp only [ExitCode.decode, ExitCode.ofRaw?_raw]
  rfl

end Recompiler
