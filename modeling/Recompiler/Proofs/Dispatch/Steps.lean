import Recompiler.Dispatch.Core
import Recompiler.Proofs.Dispatch.Stores

/-! What the dispatcher does to the cache. Every step keeps a condition that is kept up, given that the compilations on
the way are good ones. -/

namespace Recompiler

open Cache

variable {σ : Type} {p : Platform σ} {R : Regime} {good : Compilation → Prop} {I : Condition} {log : List Compilation}

/-- The page of the instruction pointer is looked up. If the block there is missing, it can be compiled. -/
theorem Sustained.codePage (hI : Sustained R good I) {mem mem' : Memory} {c c' : Cache} {code : HostCode} (h : I log mem c code)
    {cpu : Cpu} {r : Except PageFault (Option MonitorId)}
    (hr : c.codePage mem cpu.ipLinear cpu.codeBig none = .ok (r, mem', c')) :
    I log mem' c' code ∧ ∀ m, r = .ok (some m) → c'.find m (pageOffset cpu.ipLinear) = none →
      (⟨cpu, m, mem', c', code⟩ : Compilation).Pending := by
  rcases codePage_spec (hI.sound h) (by simp) hr with ⟨fault, -, rfl, rfl, rfl⟩ | ⟨paddr, hpaddr, hp, hm⟩
  · exact ⟨h, by simp⟩
  · refine ⟨hI.paged h hr hp, fun m hr hfind => ?_⟩
    obtain ⟨hpage, hcode⟩ := hm m hr
    obtain ⟨hinst, hpage⟩ := (hp.sound.watches.byPage _ _).mp hpage
    exact ⟨hinst, ⟨paddr, (Memory.resolve_eq_of_unreleased hp.memory _ _).trans hpaddr, hpage⟩, hcode, hfind⟩

/-- The block that left is linked from a slot that is free, to a block on a page for the current code size. Both have code
of their own. -/
theorem Engine.linkCandidate_spec {c : Cache} (h : c.Sound) {cpu : Cpu} {mem : Memory} {running : Option BlockId} {slot : Slot}
    {id target : BlockId} (hlink : linkCandidate c cpu mem running slot = .ok (some (id, target))) :
    running = some id ∧ c.Runnable id ∧ (c.linkSlot id slot).target = none ∧ c.Runnable target ∧
      ∃ m, (c.block target).owner = some m ∧ (c.monitor m).code32 = cpu.codeBig ∧
        c.find m (pageOffset cpu.ipLinear) = some target ∧
        ∃ paddr, mem.resolve cpu.ipLinear false = .ok paddr ∧ c.monitorOf (pageOf paddr) = some m := by
  unfold linkCandidate at hlink
  cases running with
  | none => cases hlink
  | some source =>
      dsimp only at hlink
      split at hlink
      · cases hlink
      · split at hlink
        · cases hlink
        · rename_i hblock
          simp only [Bool.or_eq_true, Bool.not_eq_true', not_or, Bool.not_eq_false, Bool.not_eq_true,
            Option.isSome_eq_false_iff, Option.isNone_iff_eq_none] at hblock
          obtain ⟨⟨hlive, hord⟩, hfree⟩ := hblock
          simp only [Except.ok.injEq, Option.bind_eq_bind, Option.bind_eq_some_iff] at hlink
          obtain ⟨paddr, hpaddr, m, hm, hfound⟩ := hlink
          split at hfound
          · rename_i hcode
            obtain ⟨found, hfind, hpair⟩ := Option.bind_eq_some_iff.mp hfound
            obtain ⟨rfl, rfl⟩ := Prod.mk.inj (Option.some.inj hpair)
            obtain ⟨howner, hord', -⟩ := find_spec h.registry hfind
            refine ⟨rfl, ⟨hlive, hord⟩, hfree, ⟨live_iff.mpr ⟨m, howner⟩, hord'⟩, m, howner, hcode, hfind, paddr, ?_, hm⟩
            cases hresolve : mem.resolve cpu.ipLinear false <;> rw [hresolve] at hpaddr <;> cases hpaddr
            rfl
          · cases hfound

namespace Engine

variable {e e' : Engine σ}

/-- A condition holds of the machine, its cache and its host code. -/
def Keeps (I : Condition) (log : List Compilation) (e : Engine σ) : Prop :=
  I log e.guest.bus.mem e.cache e.code

/-- The compilation that starts in a state. -/
def request (e : Engine σ) (m : MonitorId) : Compilation :=
  ⟨e.guest.cpu, m, e.guest.bus.mem, e.cache, e.code⟩

/-- The compilations of a step. -/
def stepLog (e : Engine σ) : Phase → List Compilation
  | .create m => if e.heavy m then [] else [e.request m]
  | _ => []

/-- The compilations of a run, the newest first. -/
def dispatchLog (p : Platform σ) : (fuel : Nat) → Phase → Engine σ → List Compilation
  | 0, _, _ => []
  | fuel + 1, phase, e =>
    match phase with
    | .done _ => []
    | phase =>
      match e.step p (fuel + 1) phase with
      | .ok (.ok phase', e') => dispatchLog p fuel phase' e' ++ e.stepLog phase
      | _ => e.stepLog phase

/-- What is known when a step is due: a block that is to be compiled is missing, on a page that is watched. -/
def Ready (e : Engine σ) : Phase → Prop
  | .create m => (e.request m).Pending
  | _ => True

/-- The page of the instruction pointer, looked for in the cache. -/
def search (e : Engine σ) : Except Abort (Except PageFault (Option MonitorId) × Memory × Cache) :=
  e.cache.codePage e.guest.bus.mem e.guest.cpu.ipLinear e.guest.cpu.codeBig none

/-- What a step of the dispatcher does. The interpreter runs where a page must not hold code, for an instruction that counts
as data, and for one that a block leaves to it. -/
inductive Steps (p : Platform σ) (e : Engine σ) : Phase → Except CoreError Phase → Engine σ → Prop where
  | fault {fault : PageFault} {mem : Memory} {c : Cache} (hpage : e.search = .ok (.error fault, mem, c)) (stats : Stats) :
      Steps p e .lookup (.ok .lookup) ⟨p.pageFault fault ⟨e.guest.cpu, ⟨mem, c⟩, e.guest.host⟩, e.code, stats, e.trap⟩
  | barred {mem : Memory} {c : Cache} {exit : CoreExit} {g : Guest Cache σ} (hpage : e.search = .ok (.ok none, mem, c))
      (hrun : p.runNormal ⟨e.guest.cpu, ⟨mem, c⟩, e.guest.host⟩ = .ok (exit, g)) (stats : Stats) :
      Steps p e .lookup (.ok (.done exit)) ⟨g, e.code, stats, e.trap⟩
  | found {m : MonitorId} {id : BlockId} {mem : Memory} {c : Cache} (hpage : e.search = .ok (.ok (some m), mem, c))
      (hfind : c.find m (pageOffset e.guest.cpu.ipLinear) = some id) (stats : Stats) :
      Steps p e .lookup (.ok (.enter id)) ⟨⟨e.guest.cpu, ⟨mem, c⟩, e.guest.host⟩, e.code, stats, e.trap⟩
  | missing {m : MonitorId} {mem : Memory} {c : Cache} (hpage : e.search = .ok (.ok (some m), mem, c))
      (hfind : c.find m (pageOffset e.guest.cpu.ipLinear) = none) (stats : Stats) :
      Steps p e .lookup (.ok (.create m)) ⟨⟨e.guest.cpu, ⟨mem, c⟩, e.guest.host⟩, e.code, stats, e.trap⟩
  | spent {m : MonitorId} {g : Guest Cache σ} {left : Int32} (hheavy : e.heavy m = true)
      (hrun : p.runNormal ⟨{ e.guest.cpu with cycles := 1 }, e.guest.bus, e.guest.host⟩ = .ok (.resume, g))
      (hleft : Cycles.spend e.guest.cpu.cycles = .ok left) (stats : Stats) :
      Steps p e (.create m) (.ok (if left ≤ 0 then .done .resume else .lookup))
        ⟨⟨{ g.cpu with cycles := left }, g.bus, g.host⟩, e.code, stats, e.trap⟩
  | called {m : MonitorId} {n : UInt32} {g : Guest Cache σ} (hheavy : e.heavy m = true)
      (hrun : p.runNormal ⟨{ e.guest.cpu with cycles := 1 }, e.guest.bus, e.guest.host⟩ = .ok (.callback n, g)) (left : Int32)
      (stats : Stats) :
      Steps p e (.create m) (.ok (.done (.callback n))) ⟨⟨{ g.cpu with cycleLeft := left }, g.bus, g.host⟩, e.code, stats, e.trap⟩
  | compiled {m : MonitorId} {r : Except CoreError BlockId} {mem : Memory} {c : Cache} {code : HostCode} (hlight : e.heavy m = false)
      (hresult : (e.request m).result = .ok (r, mem, c, code)) (stats : Stats) :
      Steps p e (.create m) (r.map .enter) ⟨⟨e.guest.cpu, ⟨mem, c⟩, e.guest.host⟩, code, stats, e.trap⟩
  | entered {fuel : Nat} {id : BlockId} {r : Except CoreError BlockExit} {e' : Engine σ} (henter : e.enter p fuel id = .ok (r, e')) :
      Steps p e (.enter id) (r.map .leave) e'
  | apart {way : BlockExit} {slot : Slot} (hcode : way.code = .ofSlot slot.index) : Steps p e (.leave way) (.ok .lookup) e
  | linked {way : BlockExit} {slot : Slot} {id target : BlockId} (hcode : way.code = .ofSlot slot.index)
      (hlink : linkCandidate e.cache e.guest.cpu e.guest.bus.mem way.running slot = .ok (some (id, target))) (stats : Stats) :
      Steps p e (.leave way) (.ok (.enter target))
        ⟨⟨e.guest.cpu, ⟨e.guest.bus.mem, e.cache.link id slot target⟩, e.guest.host⟩, e.code, stats, e.trap⟩
  | single {way : BlockExit} {full : Bool} {left : Int32} {exit : CoreExit} {g : Guest Cache σ}
      (hcode : way.code = .opcode ∨ way.code = .opcodeFull ∨ way.code = .smcBlock)
      (hrun : (if full then p.runFull ⟨{ e.guest.cpu with cycleLeft := left, cycles := 1 }, e.guest.bus, e.guest.host⟩
        else p.runNormal ⟨{ e.guest.cpu with cycleLeft := left, cycles := 1 }, e.guest.bus, e.guest.host⟩) = .ok (exit, g)) (stats : Stats) :
      Steps p e (.leave way) (.ok (.done exit)) ⟨g, e.code, stats, e.trap⟩
  | normal {way : BlockExit} (hcode : way.code = .normal) : Steps p e (.leave way) (.ok .lookup) e
  | cycles {way : BlockExit} (hcode : way.code = .cycles) : Steps p e (.leave way) (.ok (.done .resume)) e
  | callback {way : BlockExit} (hcode : way.code = .callback) (stats : Stats) :
      Steps p e (.leave way) (.ok (.done (.callback way.callback))) ⟨e.guest, e.code, stats, e.trap⟩
  | trapped {way : BlockExit} (hcode : way.code = .iret) (hflag : e.guest.cpu.getFlag Flag.tf = true) :
      Steps p e (.leave way) (.ok (.done .resume)) ⟨e.guest, e.code, e.stats, true⟩
  | iret {way : BlockExit} {phase : Phase} (hcode : way.code = .iret) (hphase : phase = .lookup ∨ phase = .done .resume) :
      Steps p e (.leave way) (.ok phase) e
  | done {exit : CoreExit} : Steps p e (.done exit) (.ok (.done exit)) e

variable {r : Except CoreError Phase}

theorem steps_lookup (hr : e.lookup p = .ok (r, e')) : Steps p e .lookup r e' := by
  unfold lookup at hr
  dsimp only at hr
  split at hr
  · cases hr
  · rename_i hpage
    cases hr
    exact .fault hpage _
  · rename_i hpage
    split at hr <;> cases hr
    rename_i hrun
    exact .barred hpage hrun _
  · rename_i m mem₁ cache₁ hpage
    cases hr
    cases hfind : cache₁.find m (pageOffset e.guest.cpu.ipLinear) with
    | some id => exact .found hpage hfind _
    | none => exact .missing hpage hfind _

theorem steps_interpretHeavy {m : MonitorId} (hheavy : e.heavy m = true) (hr : e.interpretHeavy p = .ok (r, e')) :
    Steps p e (.create m) r e' := by
  unfold interpretHeavy at hr
  dsimp only at hr
  split at hr
  · cases hr
  · rename_i cpu₁ bus₁ host₁ hrun
    split at hr
    · cases hleft : Cycles.spend e.guest.cpu.cycles <;> simp only [hleft] at hr <;> cases hr
      exact .spent hheavy hrun hleft _
    · cases hleft : Cycles.total cpu₁.cycleLeft e.guest.cpu.cycles <;> simp only [hleft] at hr <;> cases hr
      exact .called hheavy hrun _ _

theorem steps_followLink {way : BlockExit} {k : Slot} (hcode : way.code = .ofSlot k.index)
    (hr : e.followLink k way.running = .ok (r, e')) : Steps p e (.leave way) r e' := by
  unfold followLink at hr
  dsimp only at hr
  split at hr
  · cases hr
  · cases hr
    exact .apart hcode
  · rename_i hlink
    cases hr
    exact .linked hcode hlink _

theorem steps_interpretOne {way : BlockExit} (hcode : way.code = .opcode ∨ way.code = .opcodeFull ∨ way.code = .smcBlock) {full : Bool}
    (hr : e.interpretOne p full = .ok (r, e')) : Steps p e (.leave way) r e' := by
  unfold interpretOne at hr
  dsimp only at hr
  split at hr
  · cases hr
  · split at hr <;> cases hr
    rename_i hrun
    exact .single hcode hrun _

theorem steps_afterExit {way : BlockExit} (hr : e.afterExit p way = .ok (r, e')) : Steps p e (.leave way) r e' := by
  unfold afterExit at hr
  cases hcode : way.code <;> simp only [hcode] at hr
  case normal =>
    cases hr
    exact .normal hcode
  case cycles =>
    cases hr
    exact .cycles hcode
  case link1 => exact steps_followLink (k := .first) hcode hr
  case link2 => exact steps_followLink (k := .second) hcode hr
  case opcode | opcodeFull | smcBlock => exact steps_interpretOne (by simp [hcode]) hr
  case callback =>
    cases hr
    exact .callback hcode _
  case iret =>
    unfold afterIret at hr
    cases hr
    dsimp only
    split
    · rename_i hflag
      exact .trapped hcode hflag
    · split
      · exact .iret hcode (.inr rfl)
      · exact .iret hcode (.inl rfl)

theorem steps_of_step {fuel : Nat} {phase : Phase} (hr : e.step p fuel phase = .ok (r, e')) : Steps p e phase r e' := by
  unfold step at hr
  cases phase with
  | lookup => exact steps_lookup hr
  | leave way => exact steps_afterExit hr
  | done exit =>
      cases hr
      exact .done
  | enter id =>
      dsimp only at hr
      split at hr <;> cases hr
      rename_i henter
      exact .entered henter
  | create m =>
      dsimp only at hr
      split at hr
      · rename_i hheavy
        exact steps_interpretHeavy hheavy hr
      · rename_i hheavy
        unfold compile at hr
        dsimp only at hr
        split at hr <;> cases hr
        rename_i hcreate
        split at hcreate <;> cases hcreate
        rename_i hcreate
        exact .compiled (Bool.eq_false_iff.mpr hheavy) hcreate _

theorem execute_keeps (hI : Durable R I) (hp : p.Confined R) (h : Keeps I log e) {fuel : Nat} {id : BlockId} {r : Except CoreError BlockExit}
    (hr : e.execute p fuel id = .ok (r, e')) : Keeps I log e' := by
  obtain ⟨⟨cpu, bus, host⟩, code, stats, trap⟩ := e
  unfold execute at hr
  dsimp only at hr
  cases hrun : code.run (BlockEnv.helpers p) fuel (bus.watch.codeAddr id) { cpu, env := ⟨bus, host, stats⟩ } with
  | error abort =>
      simp only [hrun] at hr
      cases hr
  | ok out =>
      obtain ⟨raw, cpu₁, ⟨bus₁, host₁, stats₁⟩, temps, running, callback⟩ := out
      have henv : BlockEnv.Keeps I log code (⟨bus, host, stats⟩ : BlockEnv σ) := h
      have hkept := HostCode.run_keeps (BlockEnv.helpers_keeps hI hp) henv hrun
      simp only [hrun] at hr
      cases hr
      exact hkept

theorem enter_keeps (hI : Durable R I) (hp : p.Confined R) (h : Keeps I log e) {fuel : Nat} {id : BlockId} {r : Except CoreError BlockExit}
    (hr : e.enter p fuel id = .ok (r, e')) : Keeps I log e' :=
  execute_keeps (e := { e with stats := { e.stats with blockRuns := e.stats.blockRuns + 1 } }) hI hp h hr

/-- An instruction that a block leaves to the interpreter stores through the bus. -/
theorem reaches_single (hp : p.Confined R) {full : Bool} {g g' : Guest Cache σ} {exit : CoreExit}
    (hrun : (if full then p.runFull g else p.runNormal g) = .ok (exit, g')) : g.bus.Reaches R.may g'.bus := by
  split at hrun
  · exact hp.runFull g hrun
  · exact hp.runNormal g hrun

theorem stepLog_of_heavy {m : MonitorId} (h : e.heavy m = true) : e.stepLog (.create m) = [] :=
  if_pos h

theorem stepLog_of_light {m : MonitorId} (h : e.heavy m = false) : e.stepLog (.create m) = [e.request m] :=
  if_neg (Bool.eq_false_iff.mp h)

theorem step_keeps (hI : Sustained R good I) (hp : p.Confined R) (h : Keeps I log e) {phase : Phase} (hready : e.Ready phase)
    (hgood : ∀ k ∈ e.stepLog phase, good k) {fuel : Nat} (hr : e.step p fuel phase = .ok (r, e')) :
    Keeps I (e.stepLog phase ++ log) e' ∧ e'.Ready (r.toOption.getD .lookup) := by
  have hsearch {result mem c} (hpage : e.search = .ok (result, mem, c)) {bus : Bus Cache} (hbus : Bus.Reaches R.may ⟨mem, c⟩ bus) :
      I log bus.mem bus.watch e.code := hI.reaches (hI.codePage h hpage).1 hbus
  have hcall {bus : Bus Cache} (hbus : e.guest.bus.Reaches R.may bus) : I log bus.mem bus.watch e.code := hI.reaches h hbus
  cases steps_of_step hr with
  | fault hpage => exact ⟨hsearch hpage (hp.pageFault _ ⟨_, ⟨_, _⟩, _⟩), trivial⟩
  | barred hpage hrun => exact ⟨hsearch hpage (hp.runNormal _ hrun), trivial⟩
  | found hpage => exact ⟨(hI.codePage h hpage).1, trivial⟩
  | missing hpage hfind =>
      obtain ⟨hkept, hpending⟩ := hI.codePage h hpage
      exact ⟨hkept, hpending _ rfl hfind⟩
  | spent hheavy hrun =>
      have hreaches := hp.runNormal _ hrun
      rw [stepLog_of_heavy hheavy]
      exact ⟨hcall hreaches, by split <;> trivial⟩
  | called hheavy hrun =>
      have hreaches := hp.runNormal _ hrun
      rw [stepLog_of_heavy hheavy]
      exact ⟨hcall hreaches, trivial⟩
  | @compiled _ r _ _ _ hlight hresult =>
      rw [stepLog_of_light hlight] at hgood ⊢
      exact ⟨hI.compile h hready (hgood _ List.mem_cons_self) hresult, by cases r <;> trivial⟩
  | @entered _ _ r _ henter => exact ⟨enter_keeps hI.toDurable hp h henter, by cases r <;> trivial⟩
  | linked _ hlink =>
      obtain ⟨-, hid, hfree, htarget, -⟩ := linkCandidate_spec (hI.sound h) hlink
      exact ⟨hI.link h hid htarget hfree, trivial⟩
  | single _ hrun =>
      have hreaches := reaches_single hp hrun
      exact ⟨hcall hreaches, trivial⟩
  | iret _ hphase => exact ⟨h, by rcases hphase with rfl | rfl <;> trivial⟩
  | _ => exact ⟨h, trivial⟩

/-- Code that does not count as data is compiled. -/
theorem step_of_result {m : MonitorId} (hlight : e.heavy m = false) {r : Except CoreError BlockId} {mem : Memory} {c : Cache} {code : HostCode}
    (hresult : (e.request m).result = .ok (r, mem, c, code)) (fuel : Nat) :
    e.step p fuel (.create m) = .ok (r.map .enter,
      ⟨⟨e.guest.cpu, ⟨mem, c⟩, e.guest.host⟩, code, { e.stats with compilations := e.stats.compilations + 1 }, e.trap⟩) := by
  have hcreate : Compile.createBlock e.guest.cpu m e.guest.bus.mem e.guest.bus.watch e.code = .ok (r, mem, c, code) := hresult
  simp only [step, hlight, Bool.false_eq_true, if_false, compile, hcreate]

/-- A run that is not at its end takes a step. -/
theorem dispatch_succ {fuel : Nat} {phase : Phase} (hdone : ∀ exit, phase ≠ .done exit) :
    e.dispatch p (fuel + 1) phase =
      match e.step p (fuel + 1) phase with
      | .error abort => .error abort
      | .ok (.error err, e) => .ok (.error err, e)
      | .ok (.ok phase, e) => dispatch p fuel phase e := by
  cases phase with
  | done exit => exact absurd rfl (hdone exit)
  | _ => rfl

theorem dispatchLog_succ {fuel : Nat} {phase : Phase} (hdone : ∀ exit, phase ≠ .done exit) :
    dispatchLog p (fuel + 1) phase e =
      match e.step p (fuel + 1) phase with
      | .ok (.ok phase', e') => dispatchLog p fuel phase' e' ++ e.stepLog phase
      | _ => e.stepLog phase := by
  cases phase with
  | done exit => exact absurd rfl (hdone exit)
  | _ => rfl

end Engine

end Recompiler
