import Recompiler.Proofs.Dispatch.Budget
import Recompiler.Proofs.Dispatch.Registry

/-! Preparing a block twice. What the first call did is all there is to do: the page has its monitor, the block is on it, and
the second call finds both. Compilations on the way may have cleared other blocks and withdrawn other monitors, but neither the
block nor the monitor of its page. -/

namespace Recompiler

open Cache

/-! ### Pages -/

namespace Cache

variable {c c' : Cache} {mem mem' : Memory} {linear paddr : UInt32} {code32 : Bool}

/-- A page that is refused a monitor has none. -/
theorem codePage_refused (h : Sound c) (hpaddr : mem.resolve linear false = .ok paddr) {keep : Option MonitorId}
    (hr : c.codePage mem linear code32 keep = .ok (.ok none, mem', c')) :
    c'.monitorOf (pageOf paddr) = none ∧ mem'.barred (pageOf paddr) = true := by
  have hinstall : ∀ {mem₁ : Memory} {d : Cache}, d.monitorOf (pageOf paddr) = none →
      codePage.install code32 keep (pageOf paddr) mem₁ d = .ok (.ok none, mem', c') →
      c'.monitorOf (pageOf paddr) = none ∧ mem'.barred (pageOf paddr) = true := by
    intro mem₁ d hnone hout
    unfold codePage.install at hout
    dsimp only at hout
    split at hout
    · rename_i hbarred
      cases hout
      exact ⟨hnone, hbarred⟩
    · split at hout <;> cases hout
  unfold codePage at hr
  rw [hpaddr] at hr
  dsimp only at hr
  split at hr
  · rename_i m hm
    split at hr
    · cases hr
    · have hcleared := clearRelease_spec h ((h.watches.byPage _ m).mp hm).1
      exact hinstall (hcleared.monitorOf_eq_none h hm) hr
  · rename_i hnone
    exact hinstall hnone hr

/-- Looking for the monitor of a page again finds what was found, and changes nothing. -/
theorem codePage_again (h : Sound c) {r : Except PageFault (Option MonitorId)}
    (hr : c.codePage mem linear code32 none = .ok (r, mem', c')) : c'.codePage mem' linear code32 none = .ok (r, mem', c') := by
  have hresolve := Memory.resolve_eq_of_unreleased (codePage_memory hr) linear false
  rcases codePage_spec h (by simp) hr with ⟨fault, hfault, rfl, rfl, rfl⟩ | ⟨paddr, hpaddr, -, hm⟩
  · exact hr
  · rw [hpaddr] at hresolve
    unfold codePage
    rw [hresolve]
    dsimp only
    rcases codePage_result hpaddr hr with ⟨m, rfl, -⟩ | ⟨rfl, -⟩
    · obtain ⟨hwatched, hcode⟩ := hm m rfl
      rw [hwatched]
      dsimp only
      rw [if_pos hcode]
    · obtain ⟨hnone, hbarred⟩ := codePage_refused h hpaddr hr
      rw [hnone]
      dsimp only
      unfold codePage.install
      exact if_pos hbarred

end Cache

/-! ### Compiled blocks -/

namespace Compilation

variable {k : Compilation} {id : BlockId} {mem' : Memory} {c' : Cache} {code' : HostCode}

/-- A block that was compiled is found where it was looked for. -/
theorem Pending.found (h : k.Pending) (hc : k.cache.Sound) (hr : k.result = .ok (.ok id, mem', c', code')) :
    c'.codePage mem' k.cpu.ipLinear k.cpu.codeBig none = .ok (.ok (some k.monitor), mem', c') ∧
      c'.find k.monitor (pageOffset k.cpu.ipLinear) = some id := by
  have hlaid := h.laid hc hr
  rcases h.formed hc hr with ⟨⟨err, herr⟩, -⟩ | ⟨hid, hformed⟩
  · cases herr
  · obtain rfl : id = k.block := Except.ok.inj hid
    refine ⟨?_, hlaid.sound.registry.find_eq_some_iff.mpr ⟨hformed.owner, hformed.ordinary, hformed.start⟩⟩
    obtain ⟨paddr, hpaddr, hpage⟩ := h.page
    obtain ⟨m, hm, hcode⟩ := hformed.code32 k.block (c'.part_self k.block)
    obtain rfl : m = k.monitor := Option.some.inj (hm.symm.trans hformed.owner)
    have hinst := hlaid.sound.registry.installed k.block k.monitor hformed.owner
    have hwatched : c'.monitorOf (pageOf paddr) = some k.monitor :=
      (hlaid.sound.watches.byPage _ _).mpr ⟨hinst, hformed.page.trans hpage⟩
    have hresolve : mem'.resolve k.cpu.ipLinear false = .ok paddr :=
      (Memory.resolve_eq_of_unreleased (memory_result hr) _ _).trans hpaddr
    unfold codePage
    rw [hresolve]
    dsimp only
    rw [hwatched]
    dsimp only
    rw [if_pos hcode]

end Compilation

/-! ### Preparing -/

namespace Machine

variable {σ : Type} {p : Platform σ} {m m' : Machine σ} {log : List Compilation} {r : Resources} {id : BlockId}

/-- A block that is there is prepared without doing anything. -/
theorem prepareBlock_of_found (hr : m.core.resources = some r) {mon : MonitorId}
    (hpage : r.cache.codePage m.mem m.cpu.ipLinear m.cpu.codeBig none = .ok (.ok (some mon), m.mem, r.cache))
    (hfind : r.cache.find mon (pageOffset m.cpu.ipLinear) = some id) :
    m.prepareBlock = .ok (.ok (some id), m) ∧ m.prepareLog = [] := by
  obtain ⟨⟨settings, resources, trap, stats⟩, cpu, mem, host⟩ := m
  obtain rfl : resources = some r := hr
  constructor
  · simp only [prepareBlock, hpage, Engine.cache, hfind]
    rfl
  · simp only [prepareLog, hpage, hfind]

/-- Where there is nothing to prepare, nothing is done. -/
theorem prepareBlock_of_unfit (hr : m.core.resources = some r) {result : Except PageFault (Option MonitorId)}
    (hpage : r.cache.codePage m.mem m.cpu.ipLinear m.cpu.codeBig none = .ok (result, m.mem, r.cache))
    (hunfit : ∀ mon, result = .ok (some mon) → r.cache.find mon (pageOffset m.cpu.ipLinear) = none ∧
      r.cache.countsAsData mon (pageOffset m.cpu.ipLinear) = true) :
    m.prepareBlock = .ok (.ok none, m) ∧ m.prepareLog = [] := by
  obtain ⟨⟨settings, resources, trap, stats⟩, cpu, mem, host⟩ := m
  obtain rfl : resources = some r := hr
  rcases result with fault | (_ | mon)
  · exact ⟨by simp only [prepareBlock, hpage], by simp only [prepareLog, hpage]⟩
  · exact ⟨by simp only [prepareBlock, hpage], by simp only [prepareLog, hpage]⟩
  · obtain ⟨hfind, hdata⟩ := hunfit mon rfl
    constructor
    · simp only [prepareBlock, hpage, Engine.cache, hfind, Engine.heavy, hdata]
      rfl
    · simp only [prepareLog, hpage, hfind, Engine.stepLog, Engine.heavy, Engine.cache, hdata]
      rfl

/-- A block that was prepared is prepared: the same call again gives the same answer. It compiles nothing, and leaves the
cache, the host code, memory and all counters as they are. This holds in every state that can be reached, and while the
recompiler is disabled. -/
theorem prepareBlock_again (hp : p.Confined .free) (h : m.core.resources = none ∨ ∃ log, History .free p m log) {x : Option BlockId}
    (hprepare : m.prepareBlock = .ok (.ok x, m')) : m'.prepareBlock = .ok (.ok x, m') ∧ m'.prepareLog = [] := by
  rcases h with hnone | ⟨log, h⟩
  · obtain ⟨⟨settings, resources, trap, stats⟩, cpu, mem, host⟩ := m
    obtain rfl : resources = none := hnone
    cases hprepare
    exact ⟨rfl, rfl⟩
  · obtain ⟨r, hr, hhoused⟩ := h.keeps (Housed.upkeep _ fun _ => True) hp fun _ _ => trivial
    have hsustained := (Housed.upkeep .free fun _ => True).toSustained
    generalize hx : (.ok x : Except CoreError (Option BlockId)) = out at hprepare
    have hprepares := prepares_of_prepareBlock hr hprepare
    generalize m.prepareLog = new at hprepares
    cases hprepares with
    | unfit hpage hunfit =>
        cases hx
        exact prepareBlock_of_unfit rfl (codePage_again hhoused.sound hpage) hunfit
    | found hpage hfind =>
        cases hx
        exact prepareBlock_of_found rfl (codePage_again hhoused.sound hpage) hfind
    | @compiled _ out _ _ _ _ _ hpage hfind _ hresult =>
        cases out <;> cases hx
        obtain ⟨hhoused', hpending⟩ := hsustained.codePage hhoused hpage
        obtain ⟨hwatched, hfound⟩ := (hpending _ rfl hfind).found hhoused'.sound hresult
        exact prepareBlock_of_found rfl hwatched hfound

/-- The block for a jump to itself is compiled by the first call, and found by the second. -/
theorem prepareBlock_again_loop :
    ∃ (m m' : Machine Interpreter) (log : List Compilation) (id : BlockId), History .free Interpreter.platform m log ∧
      m.prepareBlock = .ok (.ok (some id), m') ∧ m.prepareLog.length = 1 ∧
        m'.prepareBlock = .ok (.ok (some id), m') ∧ m'.prepareLog = [] := by
  obtain ⟨id, mem, c, code, hcreate, -⟩ := exists_created
    (r := Compile.createBlock .flat32 0 (onePage 0 [0xEB, 0xFE]) watchedCache scantCode) (fun _ _ _ => true) (by decide +kernel)
  obtain ⟨hprepare, hlog⟩ := prepareBlock_onePage (by decide) rfl hcreate
  have h : History .free Interpreter.platform (onePageMachine 0 [0xEB, 0xFE] .flat32) [] := history_onePageMachine _ trivial _
  have hlength := congrArg List.length hlog
  exact ⟨_, _, _, id, h, hprepare, hlength, prepareBlock_again (Interpreter.platform_confined _) (.inr ⟨_, h⟩) hprepare⟩

end Machine

end Recompiler
