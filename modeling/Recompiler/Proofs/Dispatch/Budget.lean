import Recompiler.Proofs.Code.Labels
import Recompiler.Proofs.Dispatch.Chains
import Recompiler.Proofs.Dispatch.Monitors

/-! Runs without a budget. The dispatcher does not look at the budget: a block does when it is entered, and so does the
interpreter. A run with nothing left of it finds or compiles the block at the instruction pointer and leaves it at once.
Only where code is overwritten too often the dispatcher has an instruction interpreted all the same. -/

namespace Recompiler

open Cache

/-! ### Blocks can be emitted -/

/-- A block can be emitted for hosts of either kind wherever the arena has the room. -/
theorem HostCode.exists_emitted {code : HostCode} {start capacity labels : Nat} {ops : List MicroOp}
    (hroom : code.arena.contains start (start + capacity) = true) (hlabels : ∀ l, .bind l ∈ ops → l < labels)
    (hops : MicroOp.WellFormed ops) :
    ∃ code', code.emitBlock start capacity labels ops = .ok (.ok (code.emitter.encoding.codeSize ops), code') := by
  cases hbackend : code.emitter.backend with
  | portable =>
      obtain ⟨code', hemit, -⟩ := exists_emitBlock hbackend hroom hlabels hops
      rw [Emitter.encoding, hbackend]
      exact ⟨code', hemit⟩
  | native =>
      obtain ⟨⟨bytes, protection⟩, base, ⟨backend, epilogue⟩, stubs, programs⟩ := code
      cases hbackend
      obtain ⟨b', hassemble, -, hpos, -⟩ := assemble_spec (X64.sized_encoding epilogue)
        (b := { store := bytes, start, capacity, base := base + start }) rfl hlabels
        (fun l hl => by
          obtain ⟨cond, hjump⟩ := (X64.branches_encoding epilogue).jumpIf_mem hl
          exact hops.bind_mem hjump)
      refine ⟨⟨⟨b'.store, protection⟩, base, ⟨.native, epilogue⟩, stubs, programs.insert (base + start) ops⟩, ?_⟩
      unfold emitBlock Emitter.emitBlock Emitter.encoding
      dsimp only
      rw [if_pos hroom, hassemble, ← hpos]
      rfl

/-! ### Compilation gives an answer -/

namespace Compilation

variable {k : Compilation} {log : List Compilation} {l : List MonitorId}

/-- The window for the code of a new block lies in the arena. -/
theorem contains_window (h : Housed log k.cache k.code) : k.code.arena.contains k.start (k.start + k.room) = true := by
  have hopened := opened_spec h.sound
  obtain ⟨spans, free, hpool⟩ := hopened.sound.layout.pool
  have hend := hpool.end_le (hopened.active ▸ hpool.active)
  have hsame := hopened.shrinks.same
  have hroom := h.room
  rw [hsame.settings, hsame.blocksStart] at hend
  unfold start room Arena.contains
  rw [Bool.and_eq_true, decide_eq_true_eq, decide_eq_true_eq]
  exact ⟨Nat.le_add_right .., hend.trans hroom⟩

/-- The code of a block can be written, if not always in full. -/
theorem exists_emission_codeSize (h : Housed log k.cache k.code) :
    ∃ code', k.emission = .ok (.ok (k.code.emitter.encoding.codeSize k.ops), code') := by
  have hlabels : ∀ l, .bind l ∈ k.ops → l < Lowering.labels k.trace := fun _ => Lowering.lt_labels _
  exact HostCode.exists_emitted (contains_window h) hlabels k.wellFormed_ops

theorem exists_emission (h : Housed log k.cache k.code) : ∃ written code', k.emission = .ok (.ok written, code') :=
  ⟨_, exists_emission_codeSize h⟩

/-- A compilation leaves memory alone. -/
theorem memory_result {r : Except CoreError BlockId} {mem' : Memory} {c' : Cache} {code' : HostCode}
    (hr : k.result = .ok (r, mem', c', code')) : mem'.unreleased = k.mem.unreleased := by
  rw [result_eq] at hr
  split at hr
  · cases hr
  · rename_i hout
    cases hr
    exact (Scan.take_advances hout).memory
  · rename_i hout
    split at hr
    · cases hr
    · cases hr
      exact (Scan.take_advances hout).memory

/-- A compilation ends with a block or an error. -/
theorem exists_result (h : k.Pending) (hhoused : Housed log k.cache k.code) (hl : Lineup k.cache none l) :
    ∃ r mem' c' code', k.result = .ok (r, mem', c', code') := by
  have hc := hhoused.sound
  obtain ⟨t, s, hout⟩ := exists_outcome hl
  rw [result_eq, hout]
  cases t with
  | error e => exact ⟨_, _, _, _, rfl⟩
  | ok t =>
      obtain ⟨hstart, hroom⟩ := h.window hc hout
      have htrace : k.trace = t := by rw [trace, hout]
      obtain ⟨written, code', hemit⟩ := exists_emission hhoused
      unfold emission at hemit
      have hbuilding : s.cache.building = some k.block :=
        ((h.steady hc).take hout).2.off.building.trans (h.sited hc).building
      dsimp only
      unfold Compile.emit
      rw [hstart, hroom, ← htrace]
      rw [hemit]
      dsimp only
      unfold closeBlock
      rw [hbuilding]
      dsimp only
      generalize s.cache.finish k.block written = finished
      obtain ⟨r, c'⟩ := finished
      cases r with
      | error e => exact ⟨_, _, _, _, rfl⟩
      | ok _ => exact ⟨_, _, _, _, rfl⟩

/-- An error that a compilation for a processor ends with. -/
def Fails (cpu : Cpu) (err : CoreError) : Prop :=
  ∃ (k : Compilation) (mem : Memory) (c : Cache) (code : HostCode), k.cpu = cpu ∧ k.result = .ok (.error err, mem, c, code)

end Compilation

/-! ### Overwritten code -/

/-- The byte at an offset of a page is overwritten too often to be compiled, and there is no block for it yet. -/
def Cache.Overwritten (c : Cache) (page : UInt32) (code32 : Bool) (offset : Nat) : Prop :=
  ∃ m, c.monitorOf page = some m ∧ (c.monitor m).code32 = code32 ∧ c.find m offset = none ∧ c.countsAsData m offset = true

namespace Cache

variable {c c' : Cache} {mem mem' : Memory} {linear paddr : UInt32} {code32 : Bool} {keep : Option MonitorId} {m : MonitorId}

/-- Nothing is counted yet on a page that a monitor was just put on. -/
theorem countsAsData_watch {page : UInt32} {flags : UInt8} (hvalid : (c.watch m page flags code32).settings.Valid)
    (hm : ((c.watch m page flags code32).monitor m).installed = true) (offset : Nat) :
    (c.watch m page flags code32).countsAsData m offset = false := by
  have hlt : m < c.monitors.size := (PagesApart.watch c m page flags code32).size ▸ lt_size_of_installed hm
  have hfresh : ((c.modifyMonitor m fun mon => mon.fresh page flags code32 c.settings.releaseDelay c.newest).monitor m).overwrites =
      noOverwrites := by rw [monitor_modifyMonitor_self hlt, Monitor.fresh]
  have hcounts : ((c.watch m page flags code32).monitor m).overwrites = noOverwrites := by
    change (((c.modifyMonitor m fun mon => mon.fresh page flags code32 c.settings.releaseDelay c.newest).setNewer c.newest
      (some m)).monitor m).overwrites = _
    generalize c.modifyMonitor m _ = d at hfresh ⊢
    unfold setNewer
    split
    · refine Eq.trans ?_ hfresh
      exact map_monitor_modifyMonitor (g := Monitor.overwrites) _ _ _ fun _ => rfl
    · exact hfresh
  have hthreshold := hvalid.facts.2.1
  unfold countsAsData
  rw [hcounts, noOverwrites, decide_eq_false_iff_not, Array.getD_eq_getD_getElem?, Array.getElem?_replicate, Nat.not_le]
  split <;> exact hthreshold

end Cache

/-! ### Dispatching -/

namespace Engine

variable {σ : Type} {p : Platform σ} {e e₁ : Engine σ} {phase phase₁ : Phase} {log : List Compilation} {record : List MonitorId}
  {l : List MonitorId} {id : BlockId} {m : MonitorId}

/-- Two states with the same processor, memory and platform. -/
structure Still (e e' : Engine σ) : Prop where
  cpu : e'.guest.cpu = e.guest.cpu
  mem : e'.guest.bus.mem.unreleased = e.guest.bus.mem.unreleased
  host : e'.guest.host = e.guest.host

theorem Still.trans {e₂ : Engine σ} (h : Still e e₁) (h' : Still e₁ e₂) : Still e e₂ :=
  ⟨h'.cpu.trans h.cpu, h'.mem.trans h.mem, h'.host.trans h.host⟩

/-- Dispatching ends with nothing left to do or with the error of a compilation, and the machine stands still. -/
def Idles (p : Platform σ) (phase : Phase) (e : Engine σ) : Prop :=
  ∃ fuel₀ out e', (out = .ok .resume ∨ ∃ err, out = .error err ∧ Compilation.Fails e.guest.cpu err) ∧ Still e e' ∧
    ∀ fuel, fuel₀ ≤ fuel → e.dispatch p fuel phase = .ok (out, e')

namespace Idles

theorem done (p : Platform σ) (e : Engine σ) : Idles p (.done .resume) e := by
  refine ⟨1, .ok .resume, e, .inl rfl, ⟨rfl, rfl, rfl⟩, fun fuel hfuel => ?_⟩
  obtain ⟨fuel, rfl⟩ := Nat.exists_eq_add_of_le' hfuel
  rfl

theorem fail (hdone : ∀ exit, phase ≠ .done exit) {err : CoreError} (hstep : ∀ fuel, e.step p fuel phase = .ok (.error err, e₁))
    (herr : Compilation.Fails e.guest.cpu err) (hstill : Still e e₁) : Idles p phase e := by
  refine ⟨1, .error err, e₁, .inr ⟨err, rfl, herr⟩, hstill, fun fuel hfuel => ?_⟩
  obtain ⟨fuel, rfl⟩ := Nat.exists_eq_add_of_le' hfuel
  rw [dispatch_succ hdone, hstep]

/-- A step that leaves the machine alone. -/
theorem step (fuel₁ : Nat) (hdone : ∀ exit, phase ≠ .done exit)
    (hstep : ∀ fuel, fuel₁ ≤ fuel → e.step p fuel phase = .ok (.ok phase₁, e₁)) (hstill : Still e e₁) (h : Idles p phase₁ e₁) :
    Idles p phase e := by
  obtain ⟨fuel₀, out, e', hout, hrest, hdispatch⟩ := h
  rw [hstill.cpu] at hout
  refine ⟨max fuel₀ fuel₁ + 1, out, e', hout, hstill.trans hrest, fun fuel hfuel => ?_⟩
  obtain ⟨fuel, rfl⟩ := Nat.exists_eq_add_of_le' (show 1 ≤ fuel by omega)
  rw [dispatch_succ hdone, hstep _ (by omega)]
  exact hdispatch fuel (by omega)

end Idles

/-- A block that is entered without a budget is left at once. -/
theorem exists_enter_exhausted (p : Platform σ) (hcode : Programmed log e.cache e.code)
    (haddr : e.code.base + e.code.arena.size < 2 ^ 64) (hid : e.cache.Runnable id) (hcycles : e.guest.cpu.cycles ≤ 0) :
    ∃ fuel₀ exit e', Still e e' ∧ exit.code = .cycles ∧ ∀ fuel, fuel₀ ≤ fuel → e.enter p fuel id = .ok (.ok exit, e') := by
  obtain ⟨k, -, hops, hstands⟩ := hcode.stands haddr hid
  obtain ⟨tail, htail, -⟩ := Lowering.exists_block_eq (Compile.context k.cpu k.block) k.trace
  have hbegins : k.ops = .act (.enter k.block.toUInt32) :: tail := htail
  have hpass : MicroOp.Performs (BlockEnv.helpers p) k.ops k.ops e.activation
      (.exit .cycles { e.activation with running := k.block.toUInt32 }) := by
    have hleft : e.activation.cpu.cycles ≤ 0 := hcycles
    rw [hbegins]
    refine .leave ?_
    rw [Action.perform]
    simp only [hleft]
    rfl
  generalize hs : ({ e.activation with running := k.block.toUInt32 } : Activation (BlockEnv σ)) = s at hpass
  obtain ⟨fuel₀, hrun⟩ := hstands.exists_run hops hpass rfl
  refine ⟨fuel₀, ⟨.cycles, s.runningBlock, s.callback⟩, ⟨⟨s.cpu, s.env.bus, s.env.host⟩, e.code, s.env.stats, e.trap⟩, ?_, rfl,
    fun fuel hfuel => enter_eq_ok.mpr ⟨_, s, HostCode.run_mono hrun hfuel, ?_, rfl⟩⟩
  · rw [← hs]
    exact ⟨rfl, rfl, rfl⟩
  · rw [ExitCode.decode, ExitCode.ofRaw?_raw]
    rfl

theorem idles_enter (p : Platform σ) (hcode : Programmed log e.cache e.code) (haddr : e.code.base + e.code.arena.size < 2 ^ 64)
    (hid : e.cache.Runnable id) (hcycles : e.guest.cpu.cycles ≤ 0) : Idles p (.enter id) e := by
  obtain ⟨fuel₀, exit, e₁, hstill, hexit, henter⟩ := exists_enter_exhausted p hcode haddr hid hcycles
  have hentered : ∀ fuel, fuel₀ ≤ fuel → e.step p fuel (.enter id) = .ok (.ok (.leave exit), e₁) := by
    intro fuel hfuel
    rw [step, henter fuel hfuel]
    rfl
  have hleft : ∀ fuel, 0 ≤ fuel → e₁.step p fuel (.leave exit) = .ok (.ok (.done .resume), e₁) := by
    intro fuel _
    rw [step, afterExit, hexit]
  exact .step _ (by simp) hentered hstill (.step _ (by simp) hleft ⟨rfl, rfl, rfl⟩ (.done p e₁))

/-- A missing block is compiled, and left before its first instruction. -/
theorem idles_create (p : Platform σ) (hcode : Programmed log e.cache e.code) (hl : Lineup e.cache none l)
    (haddr : e.code.base + e.code.arena.size < 2 ^ 64) (hready : e.Ready (.create m)) (hheavy : e.heavy m = false)
    (hcycles : e.guest.cpu.cycles ≤ 0) : Idles p (.create m) e := by
  obtain ⟨r, mem, c, code, hresult⟩ := Compilation.exists_result hready hcode.toHoused hl
  have hstep := step_of_result (p := p) hheavy hresult
  have hstill : ∀ stats, Still e ⟨⟨e.guest.cpu, ⟨mem, c⟩, e.guest.host⟩, code, stats, e.trap⟩ := fun _ =>
    ⟨rfl, Compilation.memory_result hresult, rfl⟩
  have hlaid := hready.laid hcode.sound hresult
  rcases hlaid.result with ⟨⟨err, rfl⟩, -⟩ | ⟨rfl, hrunnable, -⟩
  · exact .fail (by simp) hstep ⟨e.request m, mem, c, code, rfl, hresult⟩ (hstill _)
  · refine .step 0 (by simp) (fun fuel _ => hstep fuel) (hstill _) ?_
    refine idles_enter p (hcode.compile hready hresult) ?_ hrunnable hcycles
    have hwrote := hlaid.wrote
    dsimp only
    rw [hwrote.base, hwrote.size]
    exact haddr

/-- Where the page may not hold code, the interpreter runs. -/
theorem lookup_barred {exit : CoreExit} {mem : Memory} {c : Cache} {g : Guest Cache σ}
    (hpage : e.cache.codePage e.guest.bus.mem e.guest.cpu.ipLinear e.guest.cpu.codeBig none = .ok (.ok none, mem, c))
    (hrun : p.runNormal ⟨e.guest.cpu, ⟨mem, c⟩, e.guest.host⟩ = .ok (exit, g)) :
    ∃ stats, e.lookup p = .ok (.ok (.done exit), ⟨g, e.code, stats, e.trap⟩) := by
  obtain ⟨⟨cpu, ⟨mem₀, c₀⟩, host⟩, code, stats, trap⟩ := e
  unfold cache at hpage
  unfold lookup
  simp only [hpage, hrun]
  exact ⟨_, rfl⟩

/-- Where it may, the block is to be entered or compiled. -/
theorem lookup_watched {mem : Memory} {c : Cache}
    (hpage : e.cache.codePage e.guest.bus.mem e.guest.cpu.ipLinear e.guest.cpu.codeBig none = .ok (.ok (some m), mem, c)) :
    ∃ stats, e.lookup p =
      .ok (.ok ((c.find m (pageOffset e.guest.cpu.ipLinear)).elim (.create m) .enter),
        ⟨⟨e.guest.cpu, ⟨mem, c⟩, e.guest.host⟩, e.code, stats, e.trap⟩) := by
  obtain ⟨⟨cpu, ⟨mem₀, c₀⟩, host⟩, code, stats, trap⟩ := e
  unfold cache at hpage
  unfold lookup
  simp only [hpage]
  cases c.find m (pageOffset cpu.ipLinear) <;> exact ⟨_, rfl⟩

/-- Without a budget the dispatcher leaves the machine alone, unless the instruction is overwritten too often and there is
no block for it. -/
theorem idles_lookup {R : Regime} (hp : p.Confined R) (h : Visits R p e phase log record) {q : Platform σ}
    (hq : ∀ g : Guest Cache σ, g.cpu.cycles ≤ 0 → q.runNormal g = .ok (.resume, g))
    (haddr : e.code.base + e.code.arena.size < 2 ^ 64) {paddr : UInt32}
    (hpaddr : e.guest.bus.mem.resolve e.guest.cpu.ipLinear false = .ok paddr) (hcycles : e.guest.cpu.cycles ≤ 0)
    (hrare : ¬e.cache.Overwritten (pageOf paddr) e.guest.cpu.codeBig (pageOffset e.guest.cpu.ipLinear)) :
    Idles q .lookup e := by
  obtain ⟨hcode, -⟩ := h.keeps (Programmed.upkeep _ fun _ => True) hp fun _ _ => trivial
  obtain ⟨l, hl, -⟩ := h.lineup hp
  obtain ⟨⟨r, mem, c⟩, hpage⟩ := hl.exists_codePage e.guest.bus.mem e.guest.cpu.ipLinear e.guest.cpu.codeBig none
  have hmem := codePage_memory hpage
  rcases codePage_result hpaddr hpage with ⟨m, rfl, hmonitor⟩ | ⟨rfl, -⟩
  · obtain ⟨hcode', hpending⟩ := (Programmed.upkeep R fun _ => True).codePage hcode hpage
    obtain ⟨l', hl', -⟩ := (h.search hpage).lineup hp
    obtain ⟨stats, hstep⟩ := lookup_watched (p := q) hpage
    refine .step 0 (by simp) (fun _ _ => hstep) ⟨rfl, hmem, rfl⟩ ?_
    cases hfind : c.find m (pageOffset e.guest.cpu.ipLinear) with
    | some id =>
        obtain ⟨howner, hord, -⟩ := find_spec hcode'.sound.registry hfind
        exact idles_enter q hcode' haddr ⟨live_iff.mpr ⟨m, howner⟩, hord⟩ hcycles
    | none =>
        refine idles_create q hcode' hl' haddr (hpending m rfl hfind) ?_ hcycles
        rcases hmonitor with ⟨hm, hsize, rfl⟩ | ⟨d, flags, rfl⟩
        · exact Bool.eq_false_iff.mpr fun hdata => hrare ⟨m, hm, hsize, hfind, hdata⟩
        · exact countsAsData_watch hcode'.sound.valid (hpending m rfl hfind).installed _
  · obtain ⟨stats, hstep⟩ := lookup_barred hpage (hq _ hcycles)
    exact .step 0 (by simp) (fun _ _ => hstep) ⟨rfl, hmem, rfl⟩ (.done q _)

end Engine

/-- Without a budget the interpreter does nothing. -/
theorem Interpreter.runNormal_exhausted {κ : Type} [Watcher κ] (g : Guest κ Interpreter) (h : g.cpu.cycles ≤ 0) :
    runNormal g = .ok (.resume, g) := by
  have hzero : g.cpu.cycles.toInt.toNat = 0 := Int.toNat_of_nonpos (Int32.le_iff_toInt_le.mp h)
  rw [runNormal, hzero]
  rfl

namespace Machine

open Engine

theorem run_of_dispatch {σ : Type} {p : Platform σ} {m : Machine σ} {r : Resources} (hr : m.core.resources = some r)
    (htrap : m.core.trap = false) {fuel : Nat} {out : Except CoreError CoreExit} {e : Engine σ}
    (h : (m.engine r).dispatch p fuel .lookup = .ok (out, e)) : m.run p fuel = .ok (out, ofEngine m.core.settings e) := by
  obtain ⟨⟨settings, resources, trap, stats⟩, cpu, mem, host⟩ := m
  obtain rfl : resources = some r := hr
  obtain rfl : trap = false := htrap
  unfold engine at h
  unfold run
  dsimp only at h ⊢
  rw [h]
  rfl

/-- While the recompiler is disabled, the interpreter runs. -/
theorem run_disabled {m : Machine Interpreter} (hr : m.core.resources = none) (htrap : m.core.trap = false)
    (hcycles : m.cpu.cycles ≤ 0) : ∃ stats, ∀ fuel, m.run Interpreter.platform fuel =
      .ok (.ok .resume, { m with core := { m.core with stats } }) := by
  obtain ⟨⟨settings, resources, trap, stats⟩, cpu, mem, host⟩ := m
  obtain rfl : resources = none := hr
  obtain rfl : trap = false := htrap
  have hrun := Interpreter.runNormal_exhausted (⟨cpu, ⟨mem, ()⟩, host⟩ : Guest Unit Interpreter) hcycles
  refine ⟨{ stats with interpreterRuns := stats.interpreterRuns + 1 }, fun fuel => ?_⟩
  unfold run onGuest Interpreter.platform
  dsimp only
  rw [hrun]
  rfl

/-- A run without a budget, in any state that can be reached and on any page that is there: it ends, with nothing left to
do or with the error of a compilation, and leaves processor, memory and platform as they are. That is so whether there is
a block, one has to be compiled, the page may not hold code, or the recompiler is disabled; only an instruction that is
overwritten too often and has no block is excluded. -/
theorem run_exhausted {p : Platform Interpreter} (hp : p.Confined .free) {m : Machine Interpreter}
    (h : m.core.resources = none ∨ ∃ log, History .free p m log) (htrap : m.core.trap = false) (hcycles : m.cpu.cycles ≤ 0)
    {paddr : UInt32} (hpaddr : m.mem.resolve m.cpu.ipLinear false = .ok paddr)
    (hres : ∀ r, m.core.resources = some r → r.code.base + r.code.arena.size < 2 ^ 64 ∧
      ¬r.cache.Overwritten (pageOf paddr) m.cpu.codeBig (pageOffset m.cpu.ipLinear)) :
    ∃ fuel₀ out m', (∀ fuel, fuel₀ ≤ fuel → m.run Interpreter.platform fuel = .ok (out, m')) ∧
      (out = .ok .resume ∨ ∃ err, out = .error err ∧ Compilation.Fails m.cpu err) ∧
      m'.cpu = m.cpu ∧ m'.mem.unreleased = m.mem.unreleased ∧ m'.host = m.host := by
  cases hr : m.core.resources with
  | none =>
      obtain ⟨stats, hrun⟩ := run_disabled hr htrap hcycles
      exact ⟨0, _, _, fun fuel _ => hrun fuel, .inl rfl, rfl, rfl, rfl⟩
  | some r =>
      obtain ⟨log, hhistory⟩ := h.resolve_left (by simp [hr])
      obtain ⟨r', record, hr', hvisit⟩ := hhistory.visits hp
      obtain rfl : r = r' := Option.some.inj (hr.symm.trans hr')
      obtain ⟨haddr, hrare⟩ := hres r hr
      obtain ⟨fuel₀, out, e', hout, hstill, hdispatch⟩ := idles_lookup hp hvisit (q := Interpreter.platform)
        Interpreter.runNormal_exhausted haddr hpaddr hcycles hrare
      exact ⟨fuel₀, out, ofEngine m.core.settings e', fun fuel hfuel => run_of_dispatch hr htrap (hdispatch fuel hfuel), hout,
        hstill.cpu, hstill.mem, hstill.host⟩

/-- A jump to itself for which there is no block yet: it is compiled, and not taken. -/
theorem run_exhausted_loop :
    ∃ m : Machine Interpreter, History .free Interpreter.platform m [] ∧ m.core.enabled = true ∧ m.core.trap = false ∧
      m.cpu.cycles ≤ 0 ∧ m.mem.resolve m.cpu.ipLinear false = .ok m.cpu.ipLinear ∧
      ∃ fuel₀ out m', (∀ fuel, fuel₀ ≤ fuel → m.run Interpreter.platform fuel = .ok (out, m')) ∧
        (out = .ok .resume ∨ ∃ err, out = .error err ∧ Compilation.Fails m.cpu err) ∧
        m'.cpu = m.cpu ∧ m'.mem.unreleased = m.mem.unreleased ∧ m'.host = m.host := by
  have hhistory : History .free Interpreter.platform (onePageMachine 0 [0xEB, 0xFE] { Cpu.flat32 with cycles := 0 }) [] :=
    history_onePageMachine _ trivial _
  have hresolve := resolve_onePage 0 [0xEB, 0xFE] (show pageOf (Cpu.ipLinear { Cpu.flat32 with cycles := 0 }) = 0 by decide)
  refine ⟨_, hhistory, rfl, rfl, by decide, hresolve, ?_⟩
  refine run_exhausted (Interpreter.platform_confined _) (.inr ⟨[], hhistory⟩) rfl (by decide) hresolve fun r hr => ?_
  cases hr
  refine ⟨by decide +kernel, ?_⟩
  rintro ⟨mon, hmon, -⟩
  simp [scantCache, monitorOf, Cache.create] at hmon

/-- Settings with which a byte counts as data once it was overwritten. -/
def waryCore : Core where
  settings := { scantSettings with overwriteThreshold := 1 }

def waryCache : Cache :=
  Cache.create waryCore.settings scantCode.base Arena.blocksStart scantCode.stubs.exits

/-- The cache when the first page is watched. -/
def waryWatching : Cache :=
  { waryCache with freeMonitors := [1] }.watch 0 0 PageFlag.ram true

/-- A processor without a budget. -/
def spentCpu : Cpu :=
  { Cpu.flat32 with cycles := 0 }

theorem enable_waryCore : waryCore.enable true = .ok { waryCore with resources := some ⟨waryCache, scantCode⟩ } := by
  have hcode : HostCode.create waryCore.settings = .ok scantCode := by
    rw [← create_scantSettings]
    unfold HostCode.create
    rfl
  have hcheck : waryCore.settings.check = .ok () := by decide +kernel
  simp only [Core.enable, Core.enabled, hcheck, hcode]
  rfl

/-- The machine with no budget left, after one compilation. -/
def waryMachine (mem : Memory) (c : Cache) (code : HostCode) : Machine Interpreter where
  core := { waryCore with resources := some ⟨c, code⟩, stats := { compilations := 1 } }
  cpu := spentCpu
  mem := mem
  host := {}

section

variable {mem : Memory} {c : Cache} {code : HostCode} {log : List Compilation}

/-- Pages are found through a hash table, which is known only by what it holds. -/
theorem monitorOf_waryMachine (h : History .identity Interpreter.platform (waryMachine mem c code) log)
    (hinst : (c.monitor 0).installed = true) (hpage : (c.monitor 0).page = 0) : c.monitorOf 0 = some 0 := by
  obtain ⟨r, hr, hhoused⟩ := h.keeps (Housed.upkeep _ fun _ => True) (Interpreter.platform_confined _) fun _ _ => trivial
  obtain rfl : ⟨c, code⟩ = r := Option.some.inj hr
  exact (hhoused.sound.watches.byPage 0 0).mpr ⟨hinst, hpage⟩

/-- The first byte is overwritten. -/
theorem write_waryMachine (hmon : c.monitorOf 0 = some 0) (hresolve : mem.resolve 0 true = .ok 0)
    (hplain : PageFlag.has (c.monitor 0).flags PageFlag.rom = false) (hchanges : mem.read 0 .w8 ≠ 0x40)
    (hinst : ((c.noteStore 0 0 1 none).2.monitor 0).installed = true) (code : HostCode) :
    ((waryMachine mem c code).write 0 .w8 0x40).2 = waryMachine (mem.write 0 .w8 0x40) (c.noteStore 0 0 1 none).2 code := by
  have hpage : pageOf 0 = 0 := by decide
  have hstore : c.write mem 0 .w8 0x40 = (mem.write 0 .w8 0x40, (c.noteStore 0 0 1 none).2) := by
    have hvalue : (0x40 : UInt32) &&& Width.w8.mask = 0x40 := by decide
    have hoffset : pageOffset 0 = 0 := by decide
    have hbytes : Width.w8.bytes = 1 := rfl
    simp only [Cache.write, hpage, hmon, hplain, hvalue, hchanges, hoffset, hbytes, reportRelease, hinst]
    rfl
  have hfits : fitsInPage 0 .w8 = true := by decide
  simp only [Machine.write, waryMachine, Bus.write, hfits, hresolve, Bus.store, Watcher.store, hstore]
  rfl

/-- An instruction that counts as data is interpreted. -/
theorem run_waryMachine (hmon : c.monitorOf 0 = some 0) (hresolve : mem.resolve 0 false = .ok 0)
    (hcode : (c.monitor 0).code32 = true) (hfind : c.find 0 0 = none) (hdata : c.countsAsData 0 0 = true) {e : Engine Interpreter}
    (hheavy : interpretHeavy Interpreter.platform ⟨⟨spentCpu, ⟨mem, c⟩, {}⟩, code, { compilations := 1, lookups := 1 }, false⟩ =
      .ok (.ok (.done .resume), e)) {fuel : Nat} (hfuel : 3 ≤ fuel) :
    (waryMachine mem c code).run Interpreter.platform fuel = .ok (.ok .resume, ofEngine waryCore.settings e) := by
  obtain ⟨fuel, rfl⟩ := Nat.exists_eq_add_of_le' hfuel
  refine run_of_dispatch (m := waryMachine mem c code) rfl rfl ?_
  have hlinear : spentCpu.ipLinear = 0 := by decide
  have hpage : pageOf 0 = 0 := by decide
  have hoffset : pageOffset 0 = 0 := by decide
  have hlookup : c.codePage mem spentCpu.ipLinear spentCpu.codeBig none = .ok (.ok (some 0), mem, c) := by
    rw [hlinear, Cache.codePage, hresolve]
    dsimp only
    rw [hpage, hmon]
    dsimp only
    rw [hcode]
    rfl
  have hsearched : ∀ fuel, step Interpreter.platform fuel .lookup ((waryMachine mem c code).engine ⟨c, code⟩) =
      .ok (.ok (.create 0), ⟨⟨spentCpu, ⟨mem, c⟩, {}⟩, code, { compilations := 1, lookups := 1 }, false⟩) := by
    intro fuel
    simp only [step, lookup, engine, waryMachine, hlookup]
    rw [hlinear, hoffset, hfind]
    rfl
  have hinterpreted : ∀ fuel, step Interpreter.platform fuel (.create 0)
      ⟨⟨spentCpu, ⟨mem, c⟩, {}⟩, code, { compilations := 1, lookups := 1 }, false⟩ = .ok (.ok (.done .resume), e) := by
    intro fuel
    rw [step, heavy, hlinear, hoffset]
    simp only [cache, hdata]
    exact hheavy
  rw [dispatch_succ (by simp), hsearched]
  dsimp only
  rw [dispatch_succ (by simp), hinterpreted]
  rfl

end

/-- Whether a step of the dispatcher ends the run, with the instruction pointer at an address. -/
def stopsAt (eip : UInt32) : Engine.Result Interpreter Phase → Bool
  | .ok (.ok (.done .resume), e) => e.guest.cpu.eip == eip
  | _ => false

theorem exists_of_stopsAt {eip : UInt32} {r : Engine.Result Interpreter Phase} (h : stopsAt eip r = true) :
    ∃ e, r = .ok (.ok (.done .resume), e) ∧ e.guest.cpu.eip = eip := by
  unfold stopsAt at h
  split at h
  · exact ⟨_, rfl, beq_iff_eq.mp h⟩
  · cases h

/-- An instruction that was compiled once, and overwritten: it is interpreted although nothing is left of the budget. -/
theorem run_executes_overwritten :
    ∃ (m m' : Machine Interpreter) (log : List Compilation), History .identity Interpreter.platform m log ∧
      m.core.trap = false ∧ m.cpu.cycles ≤ 0 ∧ m.mem.resolve m.cpu.ipLinear false = .ok m.cpu.ipLinear ∧
      (∀ fuel, 3 ≤ fuel → m.run Interpreter.platform fuel = .ok (.ok .resume, m')) ∧ m'.cpu.eip ≠ m.cpu.eip := by
  have hstart : History .identity Interpreter.platform
      ⟨{ waryCore with resources := some ⟨waryCache, scantCode⟩ }, spentCpu, onePage 0 [0xEB, 0xFE], {}⟩ [] :=
    .start rfl enable_waryCore _ rfl _
  have hnone : waryCache.monitorOf 0 = none := by simp [waryCache, monitorOf, Cache.create]
  have hfree : waryCache.freeMonitors = [0, 1] := by decide +kernel
  have hresolve := resolve_onePage 0 [0xEB, 0xFE] (show pageOf spentCpu.ipLinear = 0 by decide)
  have hpage : waryCache.codePage (onePage 0 [0xEB, 0xFE]) spentCpu.ipLinear spentCpu.codeBig none =
      .ok (.ok (some 0), onePage 0 [0xEB, 0xFE], waryWatching) := codePage_of_free hresolve rfl hnone hfree true
  obtain ⟨id, mem, c, code, hcreate, hc⟩ := exists_created
    (r := Compile.createBlock spentCpu 0 (onePage 0 [0xEB, 0xFE]) waryWatching scantCode)
    (fun mem c code =>
      let c₁ := (c.noteStore 0 0 1 none).2
      (c.monitor 0).installed && (c.monitor 0).page == 0 && !PageFlag.has (c.monitor 0).flags PageFlag.rom &&
        mem.read 0 .w8 != 0x40 && (c₁.monitor 0).installed && (c₁.monitor 0).page == 0 && (c₁.monitor 0).code32 &&
        (c₁.find 0 0).isNone && c₁.countsAsData 0 0 &&
        stopsAt 1 (interpretHeavy Interpreter.platform
          ⟨⟨spentCpu, ⟨mem.write 0 .w8 0x40, c₁⟩, {}⟩, code, { compilations := 1, lookups := 1 }, false⟩))
    (by decide +kernel)
  simp only [Bool.and_eq_true, beq_iff_eq, bne_iff_ne, Bool.not_eq_true', Option.isNone_iff_eq_none] at hc
  obtain ⟨⟨⟨⟨⟨⟨⟨⟨⟨hinst, hzero⟩, hplain⟩, hchanges⟩, hinst₁⟩, hzero₁⟩, hcode₁⟩, hfind₁⟩, hdata₁⟩, hheavy₁⟩ := hc
  have hmem : mem.unreleased = (onePage 0 [0xEB, 0xFE]).unreleased :=
    Compilation.memory_result (k := ⟨spentCpu, 0, onePage 0 [0xEB, 0xFE], waryWatching, scantCode⟩) hcreate
  have hprepared : History .identity Interpreter.platform (waryMachine mem c code) _ :=
    .prepare hstart (prepareBlock_of_created hpage (by decide +kernel) (by decide +kernel) hcreate).1
  have hwrite := write_waryMachine (monitorOf_waryMachine hprepared hinst hzero)
    ((Memory.resolve_eq_of_unreleased hmem 0 true).trans rfl) hplain hchanges hinst₁ code
  have hwritten := hwrite ▸ hprepared.write 0 .w8 0x40
  have hresolve₁ : (mem.write 0 .w8 0x40).resolve 0 false = .ok 0 :=
    (Memory.resolve_eq_of_unreleased hmem 0 false).trans rfl
  have hspent : spentCpu.cycles ≤ 0 ∧ 1 ≠ spentCpu.eip := by decide
  obtain ⟨e, hheavy, heip⟩ := exists_of_stopsAt hheavy₁
  refine ⟨_, ofEngine waryCore.settings e, _, hwritten, rfl, hspent.1, hresolve₁, fun fuel hfuel =>
    run_waryMachine (monitorOf_waryMachine hwritten hinst₁ hzero₁) hresolve₁ hcode₁ hfind₁ hdata₁ hheavy hfuel, ?_⟩
  have heip : (ofEngine waryCore.settings e).cpu.eip = 1 := heip
  rw [heip]
  exact hspent.2

end Machine

end Recompiler
