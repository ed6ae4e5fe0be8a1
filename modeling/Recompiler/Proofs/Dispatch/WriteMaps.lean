import Recompiler.Proofs.Cache.Initial
import Recompiler.Proofs.Compile.Origin
import Recompiler.Proofs.Dispatch.Visited

/-! The write maps. For every byte of a watched page the map has the number of blocks that depend on it, as long as
every compilation found a first instruction. A block without one is registered, but its first byte is not counted. -/

namespace Recompiler

open Cache

/-- Where pages are not remapped, it is known where blocks come from, given that every compilation finds a first
instruction. -/
theorem Tracked.upkeep : Upkeep .identity (·.decodes = true) fun log mem c _ => Tracked log mem c where
  start := by
    intro settings mem code hmapped hcheck _
    have hdead : ∀ x, ((Cache.create settings code.base Arena.blocksStart code.stubs.exits).block x).live = false := fun x => by
      rw [Block.live, owner_create]
      rfl
    refine ⟨consistent_create hcheck code.base Arena.blocksStart code.stubs.exits, hmapped, fun x hlive => ?_, fun x hlive => ?_⟩
    all_goals exact absurd ((hdead x).symm.trans hlive) (by simp)
  sound h := h.consistent.toSound
  change h hmay := h.retag hmay.1 hmay.2
  stored h hs := h.stored hs.toStored
  paged h _ hp := h.paged hp
  link h hid htarget hfree := h.link (h.consistent.toSound.link hid htarget hfree)
  compile h hpending hdec hr := h.compile ⟨hpending, h.consistent, h.mapped⟩ hdec hr

namespace Machine

/-- In every state that can be reached without compiling a block that has no first instruction, the write map of a watched
page counts, for each byte, the blocks of the page that have the byte in their range and not in their mask. -/
theorem cover_eq_card_dependents {σ : Type} {p : Platform σ} (hp : p.Confined .identity) {m : Machine σ} {log : List Compilation}
    (h : History .identity p m log) (hdec : ∀ k ∈ log, k.decodes = true) {r : Resources} (hr : m.core.resources = some r)
    {page : MonitorId} (hpage : (r.cache.monitor page).installed = true) {i : Nat} (hi : i < pageSize) :
    ((r.cache.monitor page).cover.getD i 0).toNat =
      ((Finset.range r.cache.blocks.size).filter fun id =>
        (r.cache.block id).owner = some page ∧ (r.cache.block id).start ≤ i ∧ i ≤ (r.cache.block id).last ∧
          (r.cache.block id).masked i = false).card := by
  obtain ⟨r', hr', htracked⟩ := h.keeps Tracked.upkeep hp hdec
  obtain rfl : r = r' := Option.some.inj (hr.symm.trans hr')
  have hcount := htracked.consistent.census.count page hpage i hi
  rw [Finset.sdiff_empty] at hcount
  exact hcount

/-! ### A machine with one page -/

/-- Room for a few blocks of threaded code. -/
def scantSettings : Settings where
  cacheSize := 128
  maxBlockSize := 64
  blockCount := 4
  codePages := 2
  hashShift := 11
  maskInitialLen := 1
  backend := .portable

def scantCode : HostCode :=
  (HostCode.create scantSettings).toOption.get (by decide +kernel)

def scantCache : Cache :=
  Cache.create scantSettings scantCode.base Arena.blocksStart scantCode.stubs.exits

/-- The cache when one page is watched. -/
def scantWatching (page : UInt32) (code32 : Bool) : Cache :=
  { scantCache with freeMonitors := [1] }.watch 0 page PageFlag.ram code32

/-- The cache when the only page is watched. -/
def watchedCache : Cache :=
  { scantCache with freeMonitors := [1] }.watch 0 0 PageFlag.ram true

/-- A page of RAM that holds some bytes from an address on; the linear page after it is not there. -/
def onePage (addr : Nat) (bytes : List UInt8) : Memory :=
  { ram := overwrite (zeroBytes pageSize) addr bytes, flags := #[PageFlag.ram], absent := [1] }

/-- An enabled recompiler that has seen no code yet. -/
def scantMachine (mem : Memory) (cpu : Cpu) : Machine Interpreter where
  core := { settings := scantSettings, resources := some ⟨scantCache, scantCode⟩ }
  cpu := cpu
  mem := mem
  host := {}

/-- An enabled recompiler on a machine with one page. -/
def onePageMachine (addr : Nat) (bytes : List UInt8) (cpu : Cpu) : Machine Interpreter where
  core := { settings := scantSettings, resources := some ⟨scantCache, scantCode⟩ }
  cpu := cpu
  mem := onePage addr bytes
  host := {}

theorem create_scantSettings : HostCode.create scantSettings = .ok scantCode := by
  cases hcreate : HostCode.create scantSettings with
  | error e =>
      have hsome : (HostCode.create scantSettings).toOption.isSome = true := by decide +kernel
      rw [hcreate] at hsome
      cases hsome
  | ok code => simp only [scantCode, hcreate, Except.toOption, Option.get_some]

theorem enable_scantSettings : Core.enable { settings := scantSettings } true =
    .ok { settings := scantSettings, resources := some ⟨scantCache, scantCode⟩ } := by
  have hcheck : scantSettings.check = .ok () := by decide +kernel
  simp only [Core.enable, Core.enabled, hcheck, create_scantSettings]
  rfl

theorem history_scantMachine {R : Regime} (p : Platform Interpreter) {mem : Memory} (hmem : R.begins mem) (cpu : Cpu) :
    History R p (scantMachine mem cpu) [] :=
  .start rfl enable_scantSettings cpu hmem _

theorem history_onePageMachine {R : Regime} (p : Platform Interpreter) {addr : Nat} {bytes : List UInt8}
    (hmem : R.begins (onePage addr bytes)) (cpu : Cpu) : History R p (onePageMachine addr bytes cpu) [] :=
  history_scantMachine p hmem cpu

/-- A page that is not watched yet gets a monitor that is free. -/
theorem codePage_of_free {c : Cache} {mem : Memory} {linear paddr : UInt32} (hresolve : mem.resolve linear false = .ok paddr)
    (hflags : mem.pageFlags (pageOf paddr) = PageFlag.ram) (hnone : c.monitorOf (pageOf paddr) = none) {m : MonitorId}
    {rest : List MonitorId} (hfree : c.freeMonitors = m :: rest) (code32 : Bool) : c.codePage mem linear code32 none =
      .ok (.ok (some m), mem, { c with freeMonitors := rest }.watch m (pageOf paddr) PageFlag.ram code32) := by
  have hcode : (!PageFlag.has PageFlag.ram PageFlag.readable || PageFlag.has PageFlag.ram PageFlag.noCode) = false := by decide
  simp only [Cache.codePage, hresolve, hnone, Cache.codePage.install, hflags, hcode, takeMonitor, hfree]
  rfl

theorem codePage_scantCache {mem : Memory} {linear paddr : UInt32} (hresolve : mem.resolve linear false = .ok paddr)
    (hflags : mem.pageFlags (pageOf paddr) = PageFlag.ram) (code32 : Bool) :
    scantCache.codePage mem linear code32 none = .ok (.ok (some 0), mem, scantWatching (pageOf paddr) code32) := by
  have hnone : scantCache.monitorOf (pageOf paddr) = none := by simp [scantCache, monitorOf, Cache.create]
  have hfree : scantCache.freeMonitors = [0, 1] := by decide +kernel
  exact codePage_of_free hresolve hflags hnone hfree code32

theorem resolve_onePage (addr : Nat) (bytes : List UInt8) {linear : UInt32} (hlinear : pageOf linear = 0) :
    (onePage addr bytes).resolve linear false = .ok linear := by
  simp only [Memory.resolve, onePage, hlinear]
  rfl

theorem codePage_onePage (addr : Nat) (bytes : List UInt8) {linear : UInt32} (hlinear : pageOf linear = 0) :
    scantCache.codePage (onePage addr bytes) linear true none = .ok (.ok (some 0), onePage addr bytes, watchedCache) := by
  have hwatched := codePage_scantCache (resolve_onePage addr bytes hlinear) (by rw [hlinear]; rfl) true
  rwa [hlinear] at hwatched

theorem find_scantWatching (page : UInt32) (code32 : Bool) (offset : Nat) : (scantWatching page code32).find 0 offset = none := by
  have hbuckets : ((scantWatching page code32).monitor 0).buckets = Array.replicate 3 [] := rfl
  simp only [Cache.find, Monitor.bucket, hbuckets, Array.getD_eq_getD_getElem?, Array.getElem?_replicate]
  split <;> rfl

theorem countsAsData_scantWatching (page : UInt32) (code32 : Bool) (offset : Nat) :
    (scantWatching page code32).countsAsData 0 offset = false := by
  have hcounts : ((scantWatching page code32).monitor 0).overwrites = Array.replicate pageSize 0 := rfl
  have hthreshold : (scantWatching page code32).settings.overwriteThreshold = 4 := rfl
  simp only [countsAsData, hcounts, hthreshold, Array.getD_eq_getD_getElem?, Array.getElem?_replicate]
  split <;> rfl

/-- Of two monitors one is in use, for another page. -/
theorem monitorOf_eq_none {c : Cache} (h : c.Watches) {page : UInt32} (hpage : (c.monitor 0).page ≠ page)
    (hidle : (c.monitor 1).installed = false) (hsize : c.monitors.size = 2) : c.monitorOf page = none := by
  cases hfound : c.monitorOf page with
  | none => rfl
  | some m =>
      obtain ⟨hm, hmpage⟩ := (h.byPage page m).mp hfound
      match m, hm, hmpage with
      | 0, _, hmpage => exact absurd hmpage hpage
      | 1, hm, _ => exact absurd (hidle.symm.trans hm) (by decide)
      | n + 2, hm, _ =>
          have hout : c.monitors.size ≤ n + 2 := by omega
          simp [monitor, hout] at hm

/-- Preparing a block that is missing and not overwritten too often. -/
theorem prepareBlock_of_created {settings : Settings} {cache c c' : Cache} {code code' : HostCode} {trap : Bool} {stats : Stats}
    {cpu : Cpu} {mem mem' mem'' : Memory} {host : Interpreter} {mon : MonitorId} {id : BlockId}
    (hcode : cache.codePage mem cpu.ipLinear cpu.codeBig none = .ok (.ok (some mon), mem', c))
    (hfind : c.find mon (pageOffset cpu.ipLinear) = none) (hheavy : c.countsAsData mon (pageOffset cpu.ipLinear) = false)
    (hcreate : Compile.createBlock cpu mon mem' c code = .ok (.ok id, mem'', c', code')) :
    prepareBlock ⟨⟨settings, some ⟨cache, code⟩, trap, stats⟩, cpu, mem, host⟩ =
        .ok (.ok (some id),
          ⟨⟨settings, some ⟨c', code'⟩, trap, { stats with compilations := stats.compilations + 1 }⟩, cpu, mem'', host⟩) ∧
      prepareLog ⟨⟨settings, some ⟨cache, code⟩, trap, stats⟩, cpu, mem, host⟩ = [⟨cpu, mon, mem', c, code⟩] := by
  constructor
  · simp only [prepareBlock, hcode, Engine.cache, hfind, Engine.heavy, hheavy, Engine.compile, hcreate]
    rfl
  · simp only [prepareLog, hcode, hfind, Engine.stepLog, Engine.heavy, Engine.cache, hheavy, Engine.request]
    rfl

/-- Preparing a block on a page that is not watched yet. -/
theorem prepareBlock_scantMachine {mem mem' : Memory} {cpu : Cpu} {paddr : UInt32} (hresolve : mem.resolve cpu.ipLinear false = .ok paddr)
    (hflags : mem.pageFlags (pageOf paddr) = PageFlag.ram) {id : BlockId} {c : Cache} {code : HostCode}
    (hcreate : Compile.createBlock cpu 0 mem (scantWatching (pageOf paddr) cpu.codeBig) scantCode = .ok (.ok id, mem', c, code)) :
    (scantMachine mem cpu).prepareBlock =
        .ok (.ok (some id), ⟨⟨scantSettings, some ⟨c, code⟩, false, { compilations := 1 }⟩, cpu, mem', {}⟩) ∧
      (scantMachine mem cpu).prepareLog = [⟨cpu, 0, mem, scantWatching (pageOf paddr) cpu.codeBig, scantCode⟩] :=
  prepareBlock_of_created (codePage_scantCache hresolve hflags cpu.codeBig) (find_scantWatching ..)
    (countsAsData_scantWatching ..) hcreate

theorem prepareBlock_onePage {addr : Nat} {bytes : List UInt8} {cpu : Cpu} (hpage : pageOf cpu.ipLinear = 0) (hbig : cpu.codeBig = true)
    {id : BlockId} {mem : Memory} {c : Cache} {code : HostCode}
    (hcreate : Compile.createBlock cpu 0 (onePage addr bytes) watchedCache scantCode = .ok (.ok id, mem, c, code)) :
    (onePageMachine addr bytes cpu).prepareBlock =
        .ok (.ok (some id), ⟨⟨scantSettings, some ⟨c, code⟩, false, { compilations := 1 }⟩, cpu, mem, {}⟩) ∧
      (onePageMachine addr bytes cpu).prepareLog = [⟨cpu, 0, onePage addr bytes, watchedCache, scantCode⟩] := by
  have hwatched : scantWatching (pageOf cpu.ipLinear) cpu.codeBig = watchedCache := by rw [hpage, hbig]; rfl
  have hprepare := prepareBlock_scantMachine (resolve_onePage addr bytes hpage) (by rw [hpage]; rfl) (hwatched.symm ▸ hcreate)
  rwa [hwatched] at hprepare

/-- A compilation whose outcome passes a test has an outcome. -/
theorem exists_created {r : Except Abort (Except CoreError BlockId × Memory × Cache × HostCode)} (P : Memory → Cache → HostCode → Bool)
    (h : (match r with | .ok (.ok _, mem, c, code) => P mem c code | _ => false) = true) :
    ∃ id mem c code, r = .ok (.ok id, mem, c, code) ∧ P mem c code = true := by
  cases r with
  | error abort => cases h
  | ok out =>
      obtain ⟨r, mem, c, code⟩ := out
      cases r with
      | error e => cases h
      | ok id => exact ⟨id, mem, c, code, rfl, h⟩

/-- The first compilation, for the page with an address. -/
def scantCompilation (mem : Memory) (cpu : Cpu) (paddr : UInt32) : Compilation :=
  ⟨cpu, 0, mem, scantWatching (pageOf paddr) cpu.codeBig, scantCode⟩

/-- The page is watched by then, and has no block. -/
theorem due_scantCompilation {mem : Memory} {cpu : Cpu} {paddr : UInt32} (hmapped : mem.mapped = [])
    (hresolve : mem.resolve cpu.ipLinear false = .ok paddr) (hflags : mem.pageFlags (pageOf paddr) = PageFlag.ram) :
    (scantCompilation mem cpu paddr).Due := by
  have hstart : History .identity Interpreter.platform (scantMachine mem cpu) [] := history_scantMachine _ hmapped cpu
  obtain ⟨r, hr, htracked⟩ := hstart.keeps Tracked.upkeep (Interpreter.platform_confined _) (by simp)
  cases hr
  have hwatched := codePage_scantCache hresolve hflags cpu.codeBig
  obtain ⟨htracked', hpending⟩ := Tracked.upkeep.codePage htracked hwatched
  exact ⟨hpending 0 rfl (find_scantWatching ..), htracked'.consistent, htracked'.mapped⟩

/-- Where pages are not remapped, the first compilation leaves memory alone, and the machine can be reached that has what
it made. -/
theorem exists_compiled {mem : Memory} {cpu : Cpu} {paddr : UInt32} (hmapped : mem.mapped = [])
    (hresolve : mem.resolve cpu.ipLinear false = .ok paddr) (hflags : mem.pageFlags (pageOf paddr) = PageFlag.ram)
    (hdec : (scantCompilation mem cpu paddr).decodes = true) (P : Memory → Cache → HostCode → Bool)
    (h : (match (scantCompilation mem cpu paddr).result with | .ok (.ok _, mem', c, code) => P mem' c code | _ => false) = true) :
    ∃ id mem' c code, (scantCompilation mem cpu paddr).result = .ok (.ok id, mem', c, code) ∧ P mem' c code = true ∧
      (scantCompilation mem cpu paddr).Due ∧ mem'.unreleased = mem.unreleased ∧
      ∀ cpu', History .identity Interpreter.platform
        ⟨⟨scantSettings, some ⟨c, code⟩, false, { compilations := 1 }⟩, cpu', mem', {}⟩ [scantCompilation mem cpu paddr] := by
  obtain ⟨id, mem', c, code, hcreate, hc⟩ := exists_created P h
  obtain ⟨hprepare, hlog⟩ := prepareBlock_scantMachine hresolve hflags hcreate
  have hstart : History .identity Interpreter.platform (scantMachine mem cpu) [] := history_scantMachine _ hmapped cpu
  have hhistory : History .identity Interpreter.platform _ _ := .prepare hstart hprepare
  rw [hlog, List.append_nil] at hhistory
  have hdue := due_scantCompilation hmapped hresolve hflags
  exact ⟨id, mem', c, code, hcreate, hc, hdue, (createBlock_spec hdue hdec hcreate).2.1, fun cpu' => .caller hhistory cpu' {}⟩

/-- A machine with a block in its cache: a jump to itself at the start of the page. -/
theorem exists_history_loop {R : Regime} (hmem : R.begins (onePage 0 [0xEB, 0xFE])) :
    ∃ (m : Machine Interpreter) (log : List Compilation) (res : Resources),
      History R Interpreter.platform m log ∧ m.core.resources = some res ∧ (res.cache.block 0).live = true ∧
        (res.cache.block 0).isCompanion = false := by
  obtain ⟨id, mem, c, code, hcreate, hc⟩ := exists_created
    (r := Compile.createBlock .flat32 0 (onePage 0 [0xEB, 0xFE]) watchedCache scantCode)
    (fun _ c _ => (c.block 0).live && !(c.block 0).isCompanion) (by decide +kernel)
  obtain ⟨hprepare, -⟩ := prepareBlock_onePage (by decide) rfl hcreate
  rw [Bool.and_eq_true, Bool.not_eq_true'] at hc
  exact ⟨_, _, ⟨c, code⟩, .prepare (history_onePageMachine _ hmem _) hprepare, rfl, hc.1, hc.2⟩

/-- A jump to itself at the start of the page: both its bytes are counted once. -/
theorem cover_eq_card_dependents_loop :
    ∃ (m : Machine Interpreter) (log : List Compilation) (res : Resources),
      History .identity Interpreter.platform m log ∧ (∀ k ∈ log, k.decodes = true) ∧ m.core.resources = some res ∧
        (res.cache.monitor 0).installed = true ∧ ((res.cache.monitor 0).cover.getD 1 0).toNat = 1 ∧
        ((Finset.range res.cache.blocks.size).filter fun id =>
          (res.cache.block id).owner = some 0 ∧ (res.cache.block id).start ≤ 1 ∧ 1 ≤ (res.cache.block id).last ∧
            (res.cache.block id).masked 1 = false).card = 1 := by
  obtain ⟨id, mem, c, code, hcreate, hc⟩ := exists_created
    (r := Compile.createBlock .flat32 0 (onePage 0 [0xEB, 0xFE]) watchedCache scantCode)
    (fun _ c _ => (c.monitor 0).installed && (c.monitor 0).cover.getD 1 0 == 1) (by decide +kernel)
  obtain ⟨hprepare, hlog⟩ := prepareBlock_onePage (by decide) rfl hcreate
  have hhistory : History .identity Interpreter.platform _ _ := .prepare (history_onePageMachine _ rfl _) hprepare
  rw [hlog, List.append_nil] at hhistory
  have hdec : ∀ k ∈ [(⟨.flat32, 0, onePage 0 [0xEB, 0xFE], watchedCache, scantCode⟩ : Compilation)], k.decodes = true := by
    simp only [List.mem_singleton, forall_eq]
    decide +kernel
  rw [Bool.and_eq_true, beq_iff_eq] at hc
  have hone : ((c.monitor 0).cover.getD 1 0).toNat = 1 := by rw [hc.2]; rfl
  refine ⟨_, _, ⟨c, code⟩, hhistory, hdec, rfl, hc.1, hone, ?_⟩
  rw [← cover_eq_card_dependents (Interpreter.platform_confined _) hhistory hdec (r := ⟨c, code⟩) rfl hc.1 (by decide)]
  exact hone

/-- The last byte of the page begins an instruction whose second byte is not there. The block for it has that byte in its
range and no mask, yet nothing is counted. -/
theorem cover_ne_card_dependents_cut :
    ∃ (m : Machine Interpreter) (log : List Compilation) (res : Resources),
      History .identity Interpreter.platform m log ∧ m.core.resources = some res ∧ (res.cache.monitor 0).installed = true ∧
        ((res.cache.monitor 0).cover.getD 4095 0).toNat ≠
          ((Finset.range res.cache.blocks.size).filter fun id =>
            (res.cache.block id).owner = some 0 ∧ (res.cache.block id).start ≤ 4095 ∧ 4095 ≤ (res.cache.block id).last ∧
              (res.cache.block id).masked 4095 = false).card := by
  obtain ⟨id, mem, c, code, hcreate, hc⟩ := exists_created
    (r := Compile.createBlock { Cpu.flat32 with eip := 4095 } 0 (onePage 4095 [0xB8]) watchedCache scantCode)
    (fun _ c _ => (c.monitor 0).installed && decide (((c.monitor 0).cover.getD 4095 0).toNat ≠
      ((Finset.range c.blocks.size).filter fun id => (c.block id).owner = some 0 ∧ (c.block id).start ≤ 4095 ∧
        4095 ≤ (c.block id).last ∧ (c.block id).masked 4095 = false).card)) (by decide +kernel)
  obtain ⟨hprepare, -⟩ := prepareBlock_onePage (by decide) rfl hcreate
  have hhistory : History .identity Interpreter.platform _ _ := .prepare (history_onePageMachine _ rfl _) hprepare
  rw [Bool.and_eq_true, decide_eq_true_eq] at hc
  exact ⟨_, _, ⟨c, code⟩, hhistory, rfl, hc.1, hc.2⟩

end Machine

end Recompiler
