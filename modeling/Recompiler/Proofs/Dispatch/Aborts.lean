import Recompiler.Proofs.Dispatch.Accounting
import Recompiler.Proofs.Dispatch.Budget
import Recompiler.Proofs.Dispatch.CodeSize

/-! What stops a run without an answer. In states that can be reached, neither the dispatcher nor a block leaves the bounds of
its tables, and there is a monitor for every page. What remains lies with the guest: an instruction that the interpreter does
not know, or a count of cycles that overflows. -/

namespace Recompiler

open Cache MicroOp Relation

variable {σ : Type} {p : Platform σ} {R : Regime} {log : List Compilation} {code : HostCode} {cause : Abort}

/-- Causes that lie with the guest. -/
def Abort.FromGuest (cause : Abort) : Prop :=
  cause = .uninterpretable ∨ cause = .overflow

theorem Abort.FromGuest.ne_outOfFuel (h : cause.FromGuest) : cause ≠ .outOfFuel := by
  rcases h with rfl | rfl <;> simp

theorem Cycles.fromGuest_spend {n : Int32} (h : Cycles.spend n = .error cause) : cause.FromGuest := by
  unfold Cycles.spend at h
  split at h <;> cases h
  exact .inr rfl

theorem Cycles.fromGuest_total {m n : Int32} (h : Cycles.total m n = .error cause) : cause.FromGuest := by
  unfold Cycles.total at h
  split at h <;> cases h
  exact .inr rfl

/-- A platform that stops without an answer only at an instruction that it cannot interpret. -/
structure Platform.Steadfast (p : Platform σ) : Prop where
  runNormal : ∀ {κ : Type} [Watcher κ] (g : Guest κ σ) {cause : Abort}, p.runNormal g = .error cause → cause.FromGuest
  runFull : ∀ {κ : Type} [Watcher κ] (g : Guest κ σ) {cause : Abort}, p.runFull g = .error cause → cause.FromGuest

namespace Interpreter

variable {κ : Type} [Watcher κ]

theorem fromGuest_step {g : Guest κ Interpreter} (h : step g = .error cause) : cause.FromGuest := by
  obtain ⟨cpu, bus, host⟩ := g
  unfold step at h
  dsimp only at h
  split at h
  · split at h <;> cases h
    exact .inl rfl
  · split at h
    · cases h
    · split at h <;> cases h
      exact .inl rfl

theorem fromGuest_runSteps {n : Nat} {g : Guest κ Interpreter} (h : runSteps n g = .error cause) : cause.FromGuest := by
  induction n generalizing g with
  | zero => cases h
  | succ n ih =>
      unfold runSteps at h
      split at h
      · rename_i hstep
        cases h
        exact fromGuest_step hstep
      · exact ih h
      · cases h
      · cases h

theorem platform_steadfast : platform.Steadfast :=
  ⟨fun _ _ h => fromGuest_runSteps h, fun _ _ h => fromGuest_runSteps h⟩

end Interpreter

/-! ### Blocks -/

namespace BlockEnv

/-- The interpreter stops without an answer, or the running block is not in the table. -/
theorem interpret_error {nextEip : UInt32} {running : Option BlockId} {cpu : Cpu} {env : BlockEnv σ}
    (h : interpret p nextEip running cpu env = .error cause) :
    p.runNormal ⟨{ cpu with cycles := 1 }, env.bus, env.host⟩ = .error cause ∨
      ∃ id exit g, running = some id ∧ p.runNormal ⟨{ cpu with cycles := 1 }, env.bus, env.host⟩ = .ok (exit, g) ∧
        g.bus.watch.blocks.size ≤ id := by
  obtain ⟨bus, host, stats⟩ := env
  unfold interpret at h
  dsimp only at h
  cases hrun : p.runNormal ⟨{ cpu with cycles := 1 }, bus, host⟩ with
  | error abort =>
      simp only [hrun] at h
      cases h
      exact .inl rfl
  | ok out =>
      obtain ⟨exit, cpu₁, bus₁, host₁⟩ := out
      simp only [hrun] at h
      cases running with
      | none =>
          dsimp only at h
          split at h <;> cases h
      | some id =>
          dsimp only at h
          split at h
          · rename_i hsize
            exact .inr ⟨id, exit, _, rfl, rfl, hsize⟩
          · split at h <;> cases h

variable (p)

theorem load_answers (linear : UInt32) (w : Width) (cpu : Cpu) (env : BlockEnv σ) : ∃ out, load p linear w cpu env = .ok out := by
  unfold load
  dsimp only
  split <;> exact ⟨_, rfl⟩

theorem store_answers (linear : UInt32) (w : Width) (value : UInt32) (running : Option BlockId) (cpu : Cpu) (env : BlockEnv σ) :
    ∃ out, store p linear w value running cpu env = .ok out := by
  obtain ⟨bus, host, stats⟩ := env
  unfold store
  dsimp only
  split <;> exact ⟨_, rfl⟩

theorem divide_answers (w : Width) (signed : Bool) (divisor : UInt32) (cpu : Cpu) (env : BlockEnv σ) :
    ∃ out, divide p w signed divisor cpu env = .ok out := by
  obtain ⟨bus, host, stats⟩ := env
  unfold divide
  dsimp only
  split <;> exact ⟨_, rfl⟩

theorem iret_answers (w : Width) (cpu : Cpu) (env : BlockEnv σ) : ∃ out, iret p w cpu env = .ok out := by
  unfold iret
  dsimp only
  split <;> exact ⟨_, rfl⟩

end BlockEnv

/-- Only a call of the interpreter stops a block without an answer. -/
theorem Action.perform_error {a : Action} {s : Activation (BlockEnv σ)} (h : a.perform (BlockEnv.helpers p) s = .error cause) :
    ∃ nextEip, BlockEnv.interpret p nextEip s.runningBlock s.cpu s.env = .error cause := by
  obtain ⟨cpu, env, temps, running, callback⟩ := s
  have hanswer {α β : Type} {f : α → β} {r : Except Abort α} (hr : r.map f = .error cause) (hok : ∃ out, r = .ok out) : False := by
    obtain ⟨out, rfl⟩ := hok
    cases hr
  unfold perform at h
  cases a with
  | interpret nextEip =>
      refine ⟨nextEip, ?_⟩
      change (BlockEnv.interpret p nextEip _ cpu env).map _ = _ at h
      unfold Activation.runningBlock
      generalize BlockEnv.interpret p nextEip _ cpu env = called at h ⊢
      cases called <;> cases h
      rfl
  | load dst addr w =>
      obtain ⟨⟨r, cpu', env'⟩, hcall⟩ := BlockEnv.load_answers p temps[addr.index] w cpu env
      change (BlockEnv.helpers p).load _ _ _ _ = _ at hcall
      simp only [hcall] at h
      cases r <;> cases h
  | store addr src w => exact (hanswer h (BlockEnv.store_answers p _ _ _ _ _ _)).elim
  | div w signed divisor => exact (hanswer h (BlockEnv.divide_answers p _ _ _ _ _)).elim
  | iret w => exact (hanswer h (BlockEnv.iret_answers p _ _ _)).elim
  | _ => cases h

namespace Underway

variable {c : Cache} {b : Bool} {a : Entry σ} {k : Compilation}

/-- Wherever a pass through a block stands, the block is entered next, or it is the one that is running. -/
theorem comes (h : Underway c b a) (hp : p.Confined R) (hsize : p.KeepsSize) (hk : log.find? (·.block = a.1) = some k)
    {op : MicroOp} {rest : List MicroOp} {s : Activation (BlockEnv σ)}
    (hcomes : Comes (BlockEnv.helpers p) k.ops (k.ops, a.2) (op :: rest, s)) :
    op = .act (.enter a.1.toUInt32) ∨ Ebbs c s.env.bus.watch ∧ s.running = a.1.toUInt32 := by
  have hblock := Tracked.block_eq hk
  obtain ⟨tail, hops, hinner⟩ := Lowering.exists_block_eq (Compile.context k.cpu k.block) k.trace
  have hops' : k.ops = .act (.enter a.1.toUInt32) :: tail := by
    rw [← hblock]
    exact hops
  rw [hops'] at hcomes
  rcases hcomes.of_enter with ⟨rfl, -⟩ | ⟨-, hcomes⟩
  · exact .inl rfl
  have hkeep : (BlockEnv.helpers p).Keeps fun env => Ebbs c env.bus.watch :=
    @BlockEnv.helpers_keeps σ p R _ [] k.code (Ebbs.durable R c) hp
  refine .inr (hcomes.keeps (I := fun t => Ebbs c t.env.bus.watch ∧ t.running = a.1.toUInt32) ?_
    (List.subset_cons_self _ _) ⟨h.ebbs, rfl⟩)
  rintro act hact t t' hperform ⟨hebbs, hrunning⟩
  refine ⟨Action.perform_keeps hkeep hebbs hperform, ?_⟩
  rcases (Action.perform_keepsSize (BlockEnv.helpers_keepsSize hsize) hperform).2 with hnow | rfl
  · exact hnow.trans hrunning
  · rcases List.mem_cons.1 hact with heq | hmem
    · simpa using heq
    · exact (hinner _ hmem).elim

/-- A block stops without an answer only if the interpreter does. -/
theorem fromGuest_abort (h : Underway c b a) (hp : p.Confined R) (hsize : p.KeepsSize) (hst : p.Steadfast)
    (hblocks : c.blocks.size < 2 ^ 32) (hk : log.find? (·.block = a.1) = some k)
    (hpass : Performs (BlockEnv.helpers p) k.ops k.ops a.2 (.abort cause)) : cause.FromGuest := by
  obtain ⟨op, rest, s, hcomes, hends⟩ := performs_iff_comes.mp hpass
  obtain ⟨act, hact, rfl⟩ : ∃ act, act.perform (BlockEnv.helpers p) s = .error cause ∧ op = .act act := by
    cases hends with
    | abort hact => exact ⟨_, hact, rfl⟩
  obtain ⟨nextEip, hcall⟩ := Action.perform_error hact
  rcases BlockEnv.interpret_error hcall with hrun | ⟨id, exit, g, hid, hrun, hlarge⟩
  · exact hst.runNormal _ hrun
  · rcases h.comes hp hsize hk hcomes with heq | ⟨hebbs, hrunning⟩
    · cases heq
      cases hact
    · have hreached : Ebbs c g.bus.watch :=
        @Durable.reaches R _ [] k.code (Ebbs.durable R c) _ _ hebbs (hp.runNormal _ hrun)
      rw [Activation.runningBlock, hrunning] at hid
      split at hid
      · cases hid
      · have hlt := h.runnable.lt
        have hnumber : a.1.toUInt32.toNat = a.1 := by
          rw [UInt32.toNat_ofNat']
          exact Nat.mod_eq_of_lt (hlt.trans hblocks)
        have hout : c.blocks.size ≤ a.1 := by
          rw [← hreached.size, ← hnumber, Option.some.inj hid]
          exact hlarge
        exact absurd hlt (Nat.not_lt.mpr hout)

end Underway

/-! ### The dispatcher -/

namespace Engine

variable {e e' : Engine σ} {phase : Phase} {record : List MonitorId} {fuel : Nat}

theorem fromGuest_lookup (hp : p.Confined R) (hst : p.Steadfast) (h : Visits R p e phase log record)
    (hr : e.lookup p = .error cause) : cause.FromGuest := by
  obtain ⟨l, hl, -⟩ := h.lineup hp
  obtain ⟨⟨r, mem, c⟩, hpage⟩ := hl.exists_codePage e.guest.bus.mem e.guest.cpu.ipLinear e.guest.cpu.codeBig none
  obtain ⟨⟨cpu, ⟨mem₀, c₀⟩, host⟩, code, stats, trap⟩ := e
  unfold cache at hpage
  unfold lookup at hr
  simp only [hpage] at hr
  split at hr
  · rename_i heq
    cases heq
  · cases hr
  · split at hr
    · rename_i hrun
      cases hr
      exact hst.runNormal _ hrun
    · cases hr
  · cases hr

theorem fromGuest_interpretHeavy (hst : p.Steadfast) (hr : e.interpretHeavy p = .error cause) : cause.FromGuest := by
  unfold interpretHeavy at hr
  dsimp only at hr
  split at hr
  · rename_i hrun
    cases hr
    exact hst.runNormal _ hrun
  · split at hr
    · cases hleft : Cycles.spend e.guest.cpu.cycles <;> simp only [hleft] at hr <;> cases hr
      exact Cycles.fromGuest_spend hleft
    · rename_i cpu _ _ _ _ _
      cases hleft : Cycles.total cpu.cycleLeft e.guest.cpu.cycles <;> simp only [hleft] at hr <;> cases hr
      exact Cycles.fromGuest_total hleft

theorem fromGuest_interpretOne (hst : p.Steadfast) {full : Bool} (hr : e.interpretOne p full = .error cause) : cause.FromGuest := by
  unfold interpretOne at hr
  dsimp only at hr
  split at hr
  · rename_i hleft
    cases hr
    exact Cycles.fromGuest_total hleft
  · split at hr
    · rename_i hrun
      cases hr
      split at hrun
      · exact hst.runFull _ hrun
      · exact hst.runNormal _ hrun
    · cases hr

/-- A block that has left is in the table. -/
theorem not_followLink_error {slot : Slot} {running : Option BlockId} (hrunning : ∀ id, running = some id → id < e.cache.blocks.size) :
    e.followLink slot running ≠ .error cause := by
  obtain ⟨⟨cpu, ⟨mem, cache⟩, host⟩, code, stats, trap⟩ := e
  intro hr
  unfold followLink at hr
  dsimp only at hr
  split at hr
  · rename_i hlink
    unfold linkCandidate at hlink
    split at hlink
    · cases hlink
    · split at hlink
      · rename_i id hsize
        exact absurd (hrunning id rfl) (Nat.not_lt.mpr hsize)
      · dsimp only at hlink
        split at hlink <;> cases hlink
  · cases hr
  · cases hr

/-- What a step of the dispatcher that enters no block stops at without an answer. -/
theorem fromGuest_step (hp : p.Confined R) (hst : p.Steadfast) (h : Visits R p e phase log record) (henter : ∀ id, phase ≠ .enter id)
    (hrunning : ∀ exit id, phase = .leave exit → exit.running = some id → id < e.cache.blocks.size)
    (hr : e.step p fuel phase = .error cause) : cause.FromGuest := by
  cases phase with
  | lookup => exact fromGuest_lookup hp hst h hr
  | enter id => exact absurd rfl (henter id)
  | done exit => cases hr
  | create m =>
      cases hheavy : e.heavy m with
      | true =>
          simp only [step, hheavy, if_true] at hr
          exact fromGuest_interpretHeavy hst hr
      | false =>
          obtain ⟨hcode, hready⟩ := h.keeps (Programmed.upkeep R fun _ => True) hp fun _ _ => trivial
          obtain ⟨l, hl, -⟩ := h.lineup hp
          obtain ⟨r, mem, c, code, hresult⟩ := Compilation.exists_result hready hcode.toHoused hl
          rw [step_of_result hheavy hresult] at hr
          cases hr
  | leave exit =>
      have hleft := fun id => hrunning exit id rfl
      unfold step afterExit at hr
      cases hexit : exit.code <;> simp only [hexit] at hr
      case normal | cycles | callback | iret => cases hr
      case link1 | link2 => exact absurd hr (not_followLink_error hleft)
      case opcode | opcodeFull | smcBlock => exact fromGuest_interpretOne hst hr

end Engine

end Recompiler
