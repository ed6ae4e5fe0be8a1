import Recompiler.Proofs.Dispatch.Steps

/-! The states a machine can reach, whatever was prepared, run, executed and stored. -/

namespace Recompiler

open Cache

variable {σ : Type} {p : Platform σ} {R : Regime} {good : Compilation → Prop} {I : Condition} {log : List Compilation}
  {m m' : Machine σ}

namespace Machine

/-- The engine of a machine with an enabled recompiler. -/
def engine (m : Machine σ) (r : Resources) : Engine σ :=
  ⟨⟨m.cpu, ⟨m.mem, r.cache⟩, m.host⟩, r.code, m.core.stats, m.core.trap⟩

/-- The recompiler is enabled, and a condition holds of memory, cache and host code. -/
def Keeps (I : Condition) (log : List Compilation) (m : Machine σ) : Prop :=
  ∃ res, m.core.resources = some res ∧ I log m.mem res.cache res.code

/-- The compilations of preparing a block. -/
def prepareLog (m : Machine σ) : List Compilation :=
  match m.core.resources with
  | none => []
  | some ⟨cache, code⟩ =>
    match cache.codePage m.mem m.cpu.ipLinear m.cpu.codeBig none with
    | .ok (.ok (some mon), mem, cache) =>
      match cache.find mon (pageOffset m.cpu.ipLinear) with
      | some _ => []
      | none => (⟨⟨m.cpu, ⟨mem, cache⟩, m.host⟩, code, m.core.stats, m.core.trap⟩ : Engine σ).stepLog (.create mon)
    | _ => []

/-- What preparing a block does while the recompiler is enabled. The page is looked for, and the block on it. A missing block is
compiled, unless its code counts as data. -/
inductive Prepares (m : Machine σ) (r : Resources) : Except CoreError (Option BlockId) → List Compilation → Machine σ → Prop where
  | unfit {result : Except PageFault (Option MonitorId)} {mem : Memory} {c : Cache} (hpage : (m.engine r).search = .ok (result, mem, c))
      (hunfit : ∀ mon, result = .ok (some mon) → c.find mon (pageOffset m.cpu.ipLinear) = none ∧
        c.countsAsData mon (pageOffset m.cpu.ipLinear) = true) :
      Prepares m r (.ok none) [] { m with core := { m.core with resources := some ⟨c, r.code⟩ }, mem }
  | found {mon : MonitorId} {id : BlockId} {mem : Memory} {c : Cache} (hpage : (m.engine r).search = .ok (.ok (some mon), mem, c))
      (hfind : c.find mon (pageOffset m.cpu.ipLinear) = some id) :
      Prepares m r (.ok (some id)) [] { m with core := { m.core with resources := some ⟨c, r.code⟩ }, mem }
  | compiled {mon : MonitorId} {out : Except CoreError BlockId} {mem mem' : Memory} {c c' : Cache} {code : HostCode}
      (hpage : (m.engine r).search = .ok (.ok (some mon), mem, c)) (hfind : c.find mon (pageOffset m.cpu.ipLinear) = none)
      (hlight : c.countsAsData mon (pageOffset m.cpu.ipLinear) = false)
      (hresult : (⟨m.cpu, mon, mem, c, r.code⟩ : Compilation).result = .ok (out, mem', c', code)) :
      Prepares m r (out.map some) [⟨m.cpu, mon, mem, c, r.code⟩]
        ⟨⟨m.core.settings, some ⟨c', code⟩, m.core.trap, { m.core.stats with compilations := m.core.stats.compilations + 1 }⟩, m.cpu, mem', m.host⟩

theorem prepares_of_prepareBlock {r : Resources} (hr : m.core.resources = some r) {out : Except CoreError (Option BlockId)}
    (h : m.prepareBlock = .ok (out, m')) : m.Prepares r out m.prepareLog m' := by
  obtain ⟨⟨settings, resources, trap, stats⟩, cpu, mem, host⟩ := m
  obtain rfl : resources = some r := hr
  obtain ⟨cache, code⟩ := r
  unfold prepareLog
  unfold prepareBlock at h
  dsimp only at h ⊢
  split at h
  · cases h
  · rename_i hpage
    cases h
    simp only [hpage]
    exact .unfit hpage (by simp)
  · rename_i hpage
    cases h
    simp only [hpage]
    exact .unfit hpage (by simp)
  · rename_i mon mem₁ cache₁ hpage
    simp only [hpage]
    split at h
    · rename_i hfind
      unfold Engine.cache at hfind
      cases h
      simp only [hfind]
      exact .found hpage hfind
    · rename_i hfind
      unfold Engine.cache at hfind
      simp only [hfind]
      split at h
      · rename_i hheavy
        cases h
        rw [Engine.stepLog_of_heavy hheavy]
        exact .unfit hpage fun _ hmon => by cases hmon; exact ⟨hfind, hheavy⟩
      · rename_i hheavy
        have hlight := Bool.eq_false_iff.mpr hheavy
        rw [Engine.stepLog_of_light hlight]
        unfold Engine.compile at h
        dsimp only at h
        generalize hresult : Compile.createBlock cpu mon mem₁ cache₁ code = made at h
        rcases made with abort | ⟨made, mem₂, cache₂, code₂⟩
        · cases h
        · cases h
          exact .compiled hpage hfind hlight hresult

/-- The compilations of a run, the newest first. -/
def runLog (p : Platform σ) (fuel : Nat) (m : Machine σ) : List Compilation :=
  match m.core.trap, m.core.resources with
  | false, some ⟨cache, code⟩ => Engine.dispatchLog p fuel .lookup ⟨⟨m.cpu, ⟨m.mem, cache⟩, m.host⟩, code, m.core.stats, false⟩
  | _, _ => []

/-- The states a machine can reach from an empty cache, with all compilations on the way, the newest first. The caller
may change the processor and the platform at any time, and memory as the regime allows. -/
inductive History (R : Regime) (p : Platform σ) : Machine σ → List Compilation → Prop where
  | start {core core' : Core} (hnew : core.resources = none) (henable : core.enable true = .ok core') (cpu : Cpu) {mem : Memory}
      (hmem : R.begins mem) (host : σ) : History R p ⟨core', cpu, mem, host⟩ []
  | caller {m : Machine σ} {log : List Compilation} (h : History R p m log) (cpu : Cpu) (host : σ) :
      History R p { m with cpu, host } log
  | change {m : Machine σ} {log : List Compilation} (h : History R p m log) {mem : Memory} (hmem : R.may m.mem mem) :
      History R p { m with mem } log
  | prepare {m m' : Machine σ} {log : List Compilation} {r : Except CoreError (Option BlockId)} (h : History R p m log)
      (hr : m.prepareBlock = .ok (r, m')) : History R p m' (m.prepareLog ++ log)
  | run {m m' : Machine σ} {log : List Compilation} {fuel : Nat} {r : Except CoreError CoreExit} (h : History R p m log)
      (hr : m.run p fuel = .ok (r, m')) : History R p m' (m.runLog p fuel ++ log)
  | execute {m m' : Machine σ} {log : List Compilation} {fuel : Nat} {id : BlockId} {r : Except CoreError ExitCode}
      (h : History R p m log) (hr : m.executeBlock p fuel id = .ok (r, m')) : History R p m' log
  | write {m : Machine σ} {log : List Compilation} (h : History R p m log) (linear : UInt32) (w : Width) (value : UInt32) :
      History R p (m.write linear w value).2 log
  | writeBytewise {m : Machine σ} {log : List Compilation} (h : History R p m log) (linear : UInt32) (w : Width)
      (value : UInt32) : History R p (m.writeBytewise linear w value).2 log

/-- Enabling the recompiler gives it an empty cache. -/
theorem enable_spec {core core' : Core} (hnew : core.resources = none) (henable : core.enable true = .ok core') :
    ∃ code, core.settings.check = .ok () ∧ HostCode.create core.settings = .ok code ∧
      core'.resources = some ⟨Cache.create core.settings code.base Arena.blocksStart code.stubs.exits, code⟩ := by
  unfold Core.enable Core.enabled at henable
  rw [hnew] at henable
  simp only [Option.isSome_none, Bool.not_true, Bool.or_self, Bool.false_eq_true, if_false] at henable
  split at henable
  · cases henable
  · rename_i hcheck
    split at henable
    · cases henable
    · rename_i code hcode
      cases henable
      exact ⟨code, hcheck, hcode, rfl⟩

theorem keeps_start (hI : Upkeep R good I) {core core' : Core} (hnew : core.resources = none)
    (henable : core.enable true = .ok core') (cpu : Cpu) {mem : Memory} (hmem : R.begins mem) (host : σ) :
    Keeps I [] ⟨core', cpu, mem, host⟩ := by
  obtain ⟨code, hcheck, hcode, hr⟩ := enable_spec hnew henable
  exact ⟨_, hr, hI.start hmem hcheck hcode⟩

theorem trapStep_reaches (hp : p.Confined R) {κ : Type} [Watcher κ] (g : Guest κ σ) {exit : CoreExit} {g' : Guest κ σ}
    (hr : trapStep p g = .ok (exit, g')) : g.bus.Reaches R.may g'.bus := by
  obtain ⟨cpu, bus, host⟩ := g
  unfold trapStep at hr
  dsimp only at hr
  cases hrun : p.runNormal ⟨{ cpu with cycles := 1, trapSkip := false }, bus, host⟩ with
  | error abort =>
      simp only [hrun] at hr
      cases hr
  | ok out =>
      obtain ⟨exit₁, g₁⟩ := out
      have hreach := hp.runNormal _ hrun
      simp only [hrun] at hr
      cases hleft : Cycles.spend cpu.cycles <;> simp only [hleft] at hr <;> cases hr
      split
      · exact hreach
      · exact hreach.trans (hp.raiseException debugException none g₁)

end Machine

end Recompiler
