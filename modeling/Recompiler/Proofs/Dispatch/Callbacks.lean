import Recompiler.Proofs.Compile.Operands
import Recompiler.Proofs.Dispatch.Arena

/-! Calls of the interpreter. A platform that records how each call ended goes through a run like the platform itself, so
its record tells which calls a run made. A callback that the dispatcher is asked for ends the run and is what the run
returns. One that a running block is asked for only makes the block leave. -/

namespace Recompiler

variable {σ : Type}

/-! ### Recording -/

/-- A machine with a record of calls, the newest first. -/
def Guest.recorded {κ : Type} (g : Guest κ σ) (calls : List CoreExit) : Guest κ (σ × List CoreExit) :=
  ⟨g.cpu, g.bus, (g.host, calls)⟩

/-- A machine without its record. -/
def Guest.erased {κ : Type} (g : Guest κ (σ × List CoreExit)) : Guest κ σ :=
  ⟨g.cpu, g.bus, g.host.1⟩

/-- The platform, with a record of how the calls of its interpreter ended. -/
def Platform.recording (p : Platform σ) : Platform (σ × List CoreExit) where
  runNormal g := (p.runNormal g.erased).map fun (exit, g') => (exit, g'.recorded (exit :: g.host.2))
  runFull g := (p.runFull g.erased).map fun (exit, g') => (exit, g'.recorded (exit :: g.host.2))
  raiseException vector errorCode g := (p.raiseException vector errorCode g.erased).recorded g.host.2
  pageFault fault g := (p.pageFault fault g.erased).recorded g.host.2
  irqPending cpu host := p.irqPending cpu host.1

def BlockEnv.recorded (env : BlockEnv σ) (calls : List CoreExit) : BlockEnv (σ × List CoreExit) :=
  ⟨env.bus, (env.host, calls), env.stats⟩

def Activation.recorded (s : Activation (BlockEnv σ)) (calls : List CoreExit) : Activation (BlockEnv (σ × List CoreExit)) :=
  ⟨s.cpu, s.env.recorded calls, s.temps, s.running, s.callback⟩

def Engine.recorded (e : Engine σ) (calls : List CoreExit) : Engine (σ × List CoreExit) :=
  ⟨e.guest.recorded calls, e.code, e.stats, e.trap⟩

def Machine.recorded (m : Machine σ) (calls : List CoreExit) : Machine (σ × List CoreExit) :=
  ⟨m.core, m.cpu, m.mem, (m.host, calls)⟩

/-- Calls of which none asked for a callback. -/
def Resumed (calls : List CoreExit) : Prop :=
  ∀ exit ∈ calls, exit = .resume

theorem Resumed.nil : Resumed [] := fun _ h => by cases h

theorem Resumed.append {calls older : List CoreExit} (h : Resumed calls) (h' : Resumed older) : Resumed (calls ++ older) :=
  fun exit hexit => (List.mem_append.mp hexit).elim (h exit) (h' exit)

/-! ### Calls of a running block -/

section Block

variable {p : Platform σ} {s s' : Activation (BlockEnv σ)}

/-- The calls of a block that leaves: only the last one may have asked for a callback, and then the block left for the
dispatcher to go on at the instruction pointer. -/
def BlockCalls (calls : List CoreExit) (raw : UInt32) : Prop :=
  Resumed calls ∨ ∃ n older, calls = .callback n :: older ∧ Resumed older ∧ raw = ExitCode.normal.raw

theorem BlockCalls.append {calls older : List CoreExit} {raw : UInt32} (h : BlockCalls calls raw) (holder : Resumed older) :
    BlockCalls (calls ++ older) raw := by
  obtain hresumed | ⟨n, rest, rfl, hrest, hraw⟩ := h
  · exact .inl (hresumed.append holder)
  · exact .inr ⟨n, rest ++ older, rfl, hrest.append holder, hraw⟩

namespace BlockEnv

variable {cpu cpu' : Cpu} {env env' : BlockEnv σ}

theorem load_recorded (p : Platform σ) (linear : UInt32) (w : Width) (cpu : Cpu) (env : BlockEnv σ) (calls : List CoreExit) :
    load p.recording linear w cpu (env.recorded calls) =
      (load p linear w cpu env).map fun (r, cpu, env) => (r, cpu, env.recorded calls) := by
  obtain ⟨bus, host, stats⟩ := env
  unfold load recorded
  dsimp only
  cases bus.mem.loadLinear linear w <;> rfl

theorem store_recorded (p : Platform σ) (linear : UInt32) (w : Width) (value : UInt32) (running : Option BlockId) (cpu : Cpu)
    (env : BlockEnv σ) (calls : List CoreExit) :
    store p.recording linear w value running cpu (env.recorded calls) =
      (store p linear w value running cpu env).map fun (r, cpu, env) => (r, cpu, env.recorded calls) := by
  obtain ⟨bus, host, stats⟩ := env
  unfold store recorded
  dsimp only
  rcases storeLinear linear w value running bus with ⟨fault | hit, bus'⟩
  · rfl
  · cases hit <;> rfl

theorem divide_recorded (p : Platform σ) (w : Width) (signed : Bool) (divisor : UInt32) (cpu : Cpu) (env : BlockEnv σ)
    (calls : List CoreExit) :
    divide p.recording w signed divisor cpu (env.recorded calls) =
      (divide p w signed divisor cpu env).map fun (r, cpu, env) => (r, cpu, env.recorded calls) := by
  obtain ⟨bus, host, stats⟩ := env
  unfold divide recorded
  dsimp only
  cases cpu.divide w signed divisor <;> rfl

theorem iret_recorded (p : Platform σ) (w : Width) (cpu : Cpu) (env : BlockEnv σ) (calls : List CoreExit) :
    iret p.recording w cpu (env.recorded calls) =
      (iret p w cpu env).map fun (r, cpu, env) => (r, cpu, env.recorded calls) := by
  obtain ⟨bus, host, stats⟩ := env
  unfold iret recorded
  dsimp only
  cases popValues cpu bus.mem w 3 (cpu.reg cpu.stackReg) <;> rfl

/-- The block goes on only if no callback was asked for. -/
theorem interpret_recorded {nextEip : UInt32} {running : Option BlockId} {r : Except ExitCode Unit}
    (h : interpret p nextEip running cpu env = .ok (r, cpu', env')) :
    ∃ exit, (∀ calls, interpret p.recording nextEip running cpu (env.recorded calls) = .ok (r, cpu', env'.recorded (exit :: calls))) ∧
      (exit = .resume ∨ r = .error .normal) := by
  obtain ⟨bus, host, stats⟩ := env
  unfold interpret at h ⊢
  dsimp only [recorded] at h ⊢
  have hrecording (calls : List CoreExit) : p.recording.runNormal ⟨{ cpu with cycles := 1 }, bus, (host, calls)⟩ =
      (p.runNormal ⟨{ cpu with cycles := 1 }, bus, host⟩).map fun (exit, g) => (exit, g.recorded (exit :: calls)) := rfl
  cases hrun : p.runNormal ⟨{ cpu with cycles := 1 }, bus, host⟩ with
  | error abort =>
      rw [hrun] at h
      cases h
  | ok out =>
      obtain ⟨exit, cpu₁, bus₁, host₁⟩ := out
      simp only [hrecording, hrun, Except.map, Guest.recorded] at h ⊢
      refine ⟨exit, ?_⟩
      cases running with
      | none =>
          dsimp only at h ⊢
          by_cases hgoes : exit = .resume ∧ cpu₁.eip = nextEip
          · rw [if_pos hgoes] at h
            cases h
            exact ⟨fun _ => if_pos hgoes, .inl hgoes.1⟩
          · rw [if_neg hgoes] at h
            cases h
            exact ⟨fun _ => if_neg hgoes, .inr rfl⟩
      | some id =>
          dsimp only at h ⊢
          by_cases hsize : bus₁.watch.blocks.size ≤ id
          · rw [if_pos hsize] at h
            cases h
          · rw [if_neg hsize] at h
            by_cases hgoes : (bus₁.watch.block id).live = true ∧ exit = .resume ∧ cpu₁.eip = nextEip
            · rw [if_pos hgoes] at h
              cases h
              exact ⟨fun _ => (if_neg hsize).trans (if_pos hgoes), .inl hgoes.2.1⟩
            · rw [if_neg hgoes] at h
              cases h
              exact ⟨fun _ => (if_neg hsize).trans (if_neg hgoes), .inr rfl⟩

/-- A block that is asked for a callback leaves. -/
theorem interpret_callback (nextEip : UInt32) (running : Option BlockId) {bus : Bus Cache} {host : σ} {n : UInt32} {g : Guest Cache σ}
    (hcall : p.runNormal ⟨{ cpu with cycles := 1 }, bus, host⟩ = .ok (.callback n, g))
    (hid : ∀ id, running = some id → id < g.bus.watch.blocks.size) (stats : Stats) :
    interpret p nextEip running cpu ⟨bus, host, stats⟩ = .ok (.error .normal, { g.cpu with cycles := cpu.cycles },
      ⟨g.bus, g.host, { stats with interpreterSteps := stats.interpreterSteps + 1 }⟩) := by
  obtain ⟨cpu₁, bus₁, host₁⟩ := g
  unfold interpret
  dsimp only
  rw [hcall]
  cases running with
  | none => exact if_neg fun h => by cases h.1
  | some id => exact (if_neg (Nat.not_le.mpr (hid id rfl))).trans (if_neg fun h => by cases h.2.1)

end BlockEnv

/-- An action makes at most one call. The block goes on only if that did not ask for a callback. -/
theorem Action.perform_recorded {a : Action} {code : Option ExitCode} (h : a.perform (BlockEnv.helpers p) s = .ok (code, s')) :
    ∃ new, (∀ calls, a.perform (BlockEnv.helpers p.recording) (s.recorded calls) = .ok (code, s'.recorded (new ++ calls))) ∧
      (Resumed new ∨ ∃ n, new = [.callback n] ∧ code = some .normal) := by
  obtain ⟨cpu, env, temps, running, callback⟩ := s
  -- A helper that makes no call.
  have hafter {f : HelperCall (BlockEnv σ) Unit} {f' : HelperCall (BlockEnv (σ × List CoreExit)) Unit}
      (hf : ∀ calls, f' cpu (env.recorded calls) = (f cpu env).map fun (r, cpu, env) => (r, cpu, env.recorded calls))
      (h : (f cpu env).map (Action.afterCall temps running callback) = .ok (code, s')) :
      ∃ new, (∀ calls, (f' cpu (env.recorded calls)).map (Action.afterCall temps running callback) =
        .ok (code, s'.recorded (new ++ calls))) ∧ (Resumed new ∨ ∃ n, new = [.callback n] ∧ code = some .normal) := by
    refine ⟨[], fun calls => ?_, .inl .nil⟩
    rw [hf]
    cases hcall : f cpu env with
    | error abort =>
        rw [hcall] at h
        cases h
    | ok out =>
        obtain ⟨r, cpu₁, env₁⟩ := out
        rw [hcall] at h
        cases r <;> cases h <;> rfl
  unfold perform at h ⊢
  cases a with
  | load dst addr w =>
      dsimp only [BlockEnv.helpers, Activation.recorded] at h ⊢
      refine ⟨[], fun calls => ?_, .inl .nil⟩
      rw [BlockEnv.load_recorded]
      cases hcall : BlockEnv.load p temps[addr.index] w cpu env with
      | error abort =>
          rw [hcall] at h
          cases h
      | ok out =>
          obtain ⟨r, cpu₁, env₁⟩ := out
          rw [hcall] at h
          cases r <;> cases h <;> rfl
  | store addr src w => exact hafter (BlockEnv.store_recorded p _ _ _ _ cpu env) h
  | div w signed divisor => exact hafter (BlockEnv.divide_recorded p _ _ _ cpu env) h
  | iret w => exact hafter (BlockEnv.iret_recorded p _ cpu env) h
  | interpret nextEip =>
      dsimp only [BlockEnv.helpers, Activation.recorded] at h ⊢
      generalize (if running = 0xFFFFFFFF then none else some running.toNat) = block at h ⊢
      cases hcall : BlockEnv.interpret p nextEip block cpu env with
      | error abort =>
          rw [hcall] at h
          cases h
      | ok out =>
          obtain ⟨r, cpu₁, env₁⟩ := out
          rw [hcall] at h
          obtain ⟨exit, hrecorded, hexit⟩ := BlockEnv.interpret_recorded hcall
          refine ⟨[exit], fun calls => ?_, ?_⟩
          · rw [hrecorded]
            cases r <;> cases h <;> rfl
          · obtain rfl | rfl := hexit
            · exact .inl (by simp [Resumed])
            · cases h
              cases exit with
              | resume => exact .inl (by simp [Resumed])
              | callback n => exact .inr ⟨n, rfl, rfl⟩
  | _ =>
      cases h
      exact ⟨[], fun _ => rfl, .inl .nil⟩

/-- The calls of an action after which the block goes on. -/
theorem BlockCalls.stay {new : List CoreExit} (h : Resumed new ∨ ∃ n, new = [.callback n] ∧ (none : Option ExitCode) = some .normal) :
    Resumed new := by
  obtain hresumed | ⟨n, -, hcode⟩ := h
  · exact hresumed
  · cases hcode

/-- The calls of an action that makes the block leave. -/
theorem BlockCalls.leave {new : List CoreExit} {code : ExitCode} (h : Resumed new ∨ ∃ n, new = [.callback n] ∧ some code = some .normal) :
    BlockCalls new code.raw := by
  obtain hresumed | ⟨n, rfl, hcode⟩ := h
  · exact .inl hresumed
  · cases hcode
    exact .inr ⟨n, [], rfl, .nil, rfl⟩

theorem Spot.run_recorded {π : Type} {track : π → Spot π} {fuel : Nat} {pos : Option π} {raw : UInt32}
    (h : Spot.run (BlockEnv.helpers p) track fuel pos s = .ok (raw, s')) :
    ∃ new, (∀ calls, Spot.run (BlockEnv.helpers p.recording) track fuel pos (s.recorded calls) =
      .ok (raw, s'.recorded (new ++ calls))) ∧ BlockCalls new raw := by
  induction fuel generalizing pos s with
  | zero =>
      cases pos <;> cases h
      exact ⟨[], fun _ => rfl, .inl .nil⟩
  | succ fuel ih =>
      cases pos with
      | none =>
          cases h
          exact ⟨[], fun _ => rfl, .inl .nil⟩
      | some pos =>
          unfold run at h ⊢
          cases hspot : track pos with
          | act a next =>
              simp only [hspot] at h ⊢
              cases hact : a.perform (BlockEnv.helpers p) s with
              | error abort =>
                  rw [hact] at h
                  cases h
              | ok out =>
                  obtain ⟨code, s₁⟩ := out
                  rw [hact] at h
                  obtain ⟨new, hrecorded, hnew⟩ := Action.perform_recorded hact
                  simp only [hrecorded]
                  cases code with
                  | some code =>
                      cases h
                      exact ⟨new, fun _ => rfl, .leave hnew⟩
                  | none =>
                      have hresumed := BlockCalls.stay hnew
                      obtain ⟨later, hlater, hcalls⟩ := ih h
                      exact ⟨later ++ new, fun calls => by rw [List.append_assoc]; exact hlater _, hcalls.append hresumed⟩
          | go next =>
              simp only [hspot] at h ⊢
              exact ih h
          | exit raw =>
              simp only [hspot] at h ⊢
              cases h
              exact ⟨[], fun _ => rfl, .inl .nil⟩
          | link entry behind =>
              have htarget (calls : List CoreExit) : (BlockEnv.helpers p.recording).linkTarget entry (s.recorded calls).env =
                  (BlockEnv.helpers p).linkTarget entry s.env := rfl
              simp only [hspot, htarget] at h ⊢
              cases hlink : (BlockEnv.helpers p).linkTarget entry s.env with
              | error abort =>
                  rw [hlink] at h
                  cases h
              | ok target =>
                  rw [hlink] at h
                  exact ih h

theorem HostCode.run_recorded {code : HostCode} {fuel entry : Nat} {raw : UInt32}
    (h : code.run (BlockEnv.helpers p) fuel entry s = .ok (raw, s')) :
    ∃ new, (∀ calls, code.run (BlockEnv.helpers p.recording) fuel entry (s.recorded calls) =
      .ok (raw, s'.recorded (new ++ calls))) ∧ BlockCalls new raw := by
  obtain ⟨π, track, behind, hrun⟩ := code.exists_track
  simp only [hrun] at h ⊢
  exact Spot.run_recorded h

end Block

/-! ### Calls of the dispatcher -/

/-- Who calls the interpreter during a run. -/
inductive Caller where
  | dispatcher
  | block
  deriving DecidableEq, Repr

/-- Who makes the calls of a step of the dispatcher. -/
def Phase.caller : Phase → Caller
  | .enter _ => .block
  | _ => .dispatcher

namespace Engine

variable {p : Platform σ} {e e' : Engine σ}

/-- The calls of a step. The dispatcher makes at most one, and is done if that asked for a callback. If a block was asked for
one, it has left, and the dispatcher goes on. -/
inductive StepCalls : Phase → List CoreExit → Except CoreError Phase → Prop where
  | quiet {phase : Phase} {calls : List CoreExit} {r : Except CoreError Phase} (h : Resumed calls) : StepCalls phase calls r
  | done {phase : Phase} (h : phase.caller = .dispatcher) (n : UInt32) : StepCalls phase [.callback n] (.ok (.done (.callback n)))
  | block {id : BlockId} {older : List CoreExit} {exit : BlockExit} (n : UInt32) (h : Resumed older) (hexit : exit.code = .normal) :
      StepCalls (.enter id) (.callback n :: older) (.ok (.leave exit))

/-- The calls of a call by the dispatcher whose result is what the slice ends with. -/
theorem StepCalls.finish {phase : Phase} (h : phase.caller = .dispatcher) (exit : CoreExit) :
    StepCalls phase [exit] (.ok (.done exit)) := by
  cases exit with
  | resume => exact .quiet (by simp [Resumed])
  | callback n => exact .done h n

theorem StepCalls.of_callback {phase : Phase} {calls : List CoreExit} {r : Except CoreError Phase} (h : StepCalls phase calls r)
    (hcaller : phase.caller = .dispatcher) {n : UInt32} (hmem : .callback n ∈ calls) : r = .ok (.done (.callback n)) := by
  cases h with
  | quiet h => cases h _ hmem
  | done _ k =>
      cases List.mem_singleton.mp hmem
      rfl
  | block => cases hcaller

theorem lookup_recorded {r : Except CoreError Phase} (h : e.lookup p = .ok (r, e')) :
    ∃ new, (∀ calls, (e.recorded calls).lookup p.recording = .ok (r, e'.recorded (new ++ calls))) ∧ StepCalls .lookup new r := by
  obtain ⟨⟨cpu, ⟨mem, cache⟩, host⟩, code, stats, trap⟩ := e
  unfold lookup at h ⊢
  dsimp only [recorded, Guest.recorded] at h ⊢
  cases hpage : cache.codePage mem cpu.ipLinear cpu.codeBig none with
  | error abort =>
      rw [hpage] at h
      cases h
  | ok out =>
      obtain ⟨found, mem₁, cache₁⟩ := out
      rw [hpage] at h
      match found, h with
      | .error fault, h =>
          cases h
          exact ⟨[], fun _ => rfl, .quiet .nil⟩
      | .ok (some m), h =>
          cases h
          exact ⟨[], fun _ => rfl, .quiet .nil⟩
      | .ok none, h =>
          dsimp only at h ⊢
          have hrecording (calls : List CoreExit) : p.recording.runNormal ⟨cpu, ⟨mem₁, cache₁⟩, (host, calls)⟩ =
              (p.runNormal ⟨cpu, ⟨mem₁, cache₁⟩, host⟩).map fun (exit, g) => (exit, g.recorded (exit :: calls)) := rfl
          simp only [hrecording] at h ⊢
          cases hrun : p.runNormal ⟨cpu, ⟨mem₁, cache₁⟩, host⟩ with
          | error abort =>
              rw [hrun] at h
              cases h
          | ok out =>
              obtain ⟨exit, g⟩ := out
              rw [hrun] at h
              cases h
              exact ⟨[exit], fun _ => rfl, .finish rfl exit⟩

theorem interpretHeavy_recorded {m : MonitorId} {r : Except CoreError Phase} (h : e.interpretHeavy p = .ok (r, e')) :
    ∃ new, (∀ calls, (e.recorded calls).interpretHeavy p.recording = .ok (r, e'.recorded (new ++ calls))) ∧
      StepCalls (.create m) new r := by
  obtain ⟨⟨cpu, bus, host⟩, code, stats, trap⟩ := e
  unfold interpretHeavy at h ⊢
  dsimp only [recorded, Guest.recorded] at h ⊢
  have hrecording (calls : List CoreExit) : p.recording.runNormal ⟨{ cpu with cycles := 1 }, bus, (host, calls)⟩ =
      (p.runNormal ⟨{ cpu with cycles := 1 }, bus, host⟩).map fun (exit, g) => (exit, g.recorded (exit :: calls)) := rfl
  simp only [hrecording] at h ⊢
  cases hrun : p.runNormal ⟨{ cpu with cycles := 1 }, bus, host⟩ with
  | error abort =>
      rw [hrun] at h
      cases h
  | ok out =>
      obtain ⟨exit, cpu₁, bus₁, host₁⟩ := out
      rw [hrun] at h
      cases exit with
      | resume =>
          cases hleft : Cycles.spend cpu.cycles <;> simp only [hleft] at h <;> cases h
          exact ⟨[.resume], fun _ => rfl, .quiet (by simp [Resumed])⟩
      | callback n =>
          cases hleft : Cycles.total cpu₁.cycleLeft cpu.cycles <;> simp only [hleft] at h <;> cases h
          refine ⟨[.callback n], fun calls => ?_, .done rfl n⟩
          change (Cycles.total cpu₁.cycleLeft cpu.cycles).map _ = _
          rw [hleft]
          rfl

theorem interpretOne_recorded {full : Bool} {phase : Phase} (hphase : phase.caller = .dispatcher) {r : Except CoreError Phase}
    (h : e.interpretOne p full = .ok (r, e')) :
    ∃ new, (∀ calls, (e.recorded calls).interpretOne p.recording full = .ok (r, e'.recorded (new ++ calls))) ∧
      StepCalls phase new r := by
  obtain ⟨⟨cpu, bus, host⟩, code, stats, trap⟩ := e
  unfold interpretOne at h ⊢
  dsimp only [recorded, Guest.recorded] at h ⊢
  cases hleft : Cycles.total cpu.cycleLeft cpu.cycles with
  | error abort =>
      rw [hleft] at h
      cases h
  | ok left =>
      simp only [hleft] at h ⊢
      generalize ({ cpu with cycleLeft := left, cycles := 1 } : Cpu) = start at h ⊢
      have hrecording (calls : List CoreExit) :
          (if full then p.recording.runFull ⟨start, bus, (host, calls)⟩ else p.recording.runNormal ⟨start, bus, (host, calls)⟩) =
            (if full then p.runFull ⟨start, bus, host⟩ else p.runNormal ⟨start, bus, host⟩).map fun (exit, g) =>
              (exit, g.recorded (exit :: calls)) := by
        cases full <;> rfl
      simp only [hrecording] at h ⊢
      cases hrun : (if full then p.runFull ⟨start, bus, host⟩ else p.runNormal ⟨start, bus, host⟩) with
      | error abort =>
          rw [hrun] at h
          cases h
      | ok out =>
          obtain ⟨exit, g⟩ := out
          rw [hrun] at h
          cases h
          exact ⟨[exit], fun _ => rfl, .finish hphase exit⟩

theorem compile_recorded (m : MonitorId) (calls : List CoreExit) :
    (e.recorded calls).compile m = (e.compile m).map fun (r, e) => (r, e.recorded calls) := by
  obtain ⟨⟨cpu, ⟨mem, cache⟩, host⟩, code, stats, trap⟩ := e
  unfold compile
  dsimp only [recorded, Guest.recorded]
  cases Compile.createBlock cpu m mem cache code <;> rfl

theorem enter_recorded {fuel : Nat} {id : BlockId} {r : Except CoreError BlockExit} (h : e.enter p fuel id = .ok (r, e')) :
    ∃ new, (∀ calls, (e.recorded calls).enter p.recording fuel id = .ok (r, e'.recorded (new ++ calls))) ∧
      StepCalls (.enter id) new (r.map .leave) := by
  obtain ⟨⟨cpu, bus, host⟩, code, stats, trap⟩ := e
  unfold enter execute at h ⊢
  dsimp only [recorded, Guest.recorded] at h ⊢
  generalize hs : ({ cpu, env := ⟨bus, host, { stats with blockRuns := stats.blockRuns + 1 }⟩ } : Activation (BlockEnv σ)) = s at h
  have hrecorded (calls : List CoreExit) :
      ({ cpu, env := ⟨bus, (host, calls), { stats with blockRuns := stats.blockRuns + 1 }⟩ } : Activation _) = s.recorded calls := by
    rw [← hs]
    rfl
  simp only [hrecorded]
  cases hrun : code.run (BlockEnv.helpers p) fuel (bus.watch.codeAddr id) s with
  | error abort =>
      rw [hrun] at h
      cases h
  | ok out =>
      obtain ⟨raw, s'⟩ := out
      rw [hrun] at h
      obtain ⟨new, hrun', hnew⟩ := HostCode.run_recorded hrun
      simp only [hrun']
      cases h
      refine ⟨new, fun _ => rfl, ?_⟩
      obtain hresumed | ⟨n, older, rfl, holder, rfl⟩ := hnew
      · exact .quiet hresumed
      · exact .block n holder rfl

theorem followLink_recorded (slot : Slot) (running : Option BlockId) (calls : List CoreExit) :
    (e.recorded calls).followLink slot running = (e.followLink slot running).map fun (r, e) => (r, e.recorded calls) := by
  obtain ⟨⟨cpu, ⟨mem, cache⟩, host⟩, code, stats, trap⟩ := e
  unfold followLink
  dsimp only [recorded, Guest.recorded]
  rcases linkCandidate cache cpu mem running slot with abort | (_ | ⟨id, target⟩) <;> rfl

theorem afterIret_recorded (p : Platform σ) (calls : List CoreExit) :
    (e.recorded calls).afterIret p.recording = ((e.afterIret p).1, (e.afterIret p).2.recorded calls) := by
  obtain ⟨guest, code, stats, trap⟩ := e
  unfold afterIret
  dsimp only [recorded, Guest.recorded]
  change (if guest.cpu.getFlag Flag.tf then _ else if guest.cpu.getFlag Flag.ief && p.irqPending guest.cpu guest.host then _ else _) = _
  by_cases htf : guest.cpu.getFlag Flag.tf = true
  · simp only [htf, if_true]
  · by_cases hirq : (guest.cpu.getFlag Flag.ief && p.irqPending guest.cpu guest.host) = true
    · simp only [htf, hirq, if_true]
      rfl
    · simp only [htf, hirq]
      rfl

theorem afterExit_recorded {exit : BlockExit} {r : Except CoreError Phase} (h : e.afterExit p exit = .ok (r, e')) :
    ∃ new, (∀ calls, (e.recorded calls).afterExit p.recording exit = .ok (r, e'.recorded (new ++ calls))) ∧
      StepCalls (.leave exit) new r := by
  have hlink {slot : Slot} (h : e.followLink slot exit.running = .ok (r, e')) :
      ∃ new, (∀ calls, (e.recorded calls).followLink slot exit.running = .ok (r, e'.recorded (new ++ calls))) ∧
        StepCalls (.leave exit) new r :=
    ⟨[], fun calls => by rw [followLink_recorded, h]; rfl, .quiet .nil⟩
  unfold afterExit at h ⊢
  cases hcode : exit.code with
  | normal | cycles | callback =>
      rw [hcode] at h
      cases h
      exact ⟨[], fun _ => rfl, .quiet .nil⟩
  | link1 | link2 =>
      rw [hcode] at h
      exact hlink h
  | opcode | smcBlock | opcodeFull =>
      rw [hcode] at h
      exact interpretOne_recorded rfl h
  | iret =>
      rw [hcode] at h
      cases h
      refine ⟨[], fun calls => ?_, .quiet .nil⟩
      simp only [afterIret_recorded]
      rfl

/-- What a step of the dispatcher does with the recording platform, and which calls it makes. -/
theorem step_recorded {fuel : Nat} {phase : Phase} {r : Except CoreError Phase} (h : e.step p fuel phase = .ok (r, e')) :
    ∃ new, (∀ calls, (e.recorded calls).step p.recording fuel phase = .ok (r, e'.recorded (new ++ calls))) ∧ StepCalls phase new r := by
  unfold step at h ⊢
  cases phase with
  | lookup => exact lookup_recorded h
  | create m =>
      have hheavy (calls : List CoreExit) : (e.recorded calls).heavy m = e.heavy m := rfl
      simp only [hheavy] at h ⊢
      by_cases hdata : e.heavy m = true
      · simp only [hdata, if_true] at h ⊢
        exact interpretHeavy_recorded h
      · simp only [hdata, compile_recorded] at h ⊢
        refine ⟨[], fun calls => ?_, .quiet .nil⟩
        cases hcompile : e.compile m with
        | error abort =>
            simp only [hcompile] at h
            cases h
        | ok out =>
            simp only [hcompile] at h
            cases h
            rfl
  | enter id =>
      dsimp only at h ⊢
      cases henter : e.enter p fuel id with
      | error abort =>
          rw [henter] at h
          cases h
      | ok out =>
          obtain ⟨r₁, e₁⟩ := out
          rw [henter] at h
          obtain ⟨new, hrecorded, hnew⟩ := enter_recorded henter
          simp only [hrecorded]
          cases h
          exact ⟨new, fun _ => rfl, hnew⟩
  | leave exit => exact afterExit_recorded h
  | done exit =>
      cases h
      exact ⟨[], fun _ => rfl, .quiet .nil⟩

/-- The calls of a step, the newest first. -/
def stepCalls (p : Platform σ) (fuel : Nat) (phase : Phase) (e : Engine σ) : List CoreExit :=
  match (e.recorded []).step p.recording fuel phase with
  | .ok (_, e') => e'.guest.host.2
  | .error _ => []

/-- The calls of dispatching with who made them, the newest first. -/
def calls (p : Platform σ) : (fuel : Nat) → Phase → Engine σ → List (Caller × CoreExit)
  | 0, _, _ => []
  | fuel + 1, phase, e =>
    match phase with
    | .done _ => []
    | phase =>
      match e.step p (fuel + 1) phase with
      | .error _ => []
      | .ok (.error _, _) => (e.stepCalls p (fuel + 1) phase).map (phase.caller, ·)
      | .ok (.ok phase', e') => calls p fuel phase' e' ++ (e.stepCalls p (fuel + 1) phase).map (phase.caller, ·)

theorem stepCalls_spec {fuel : Nat} {phase : Phase} {r : Except CoreError Phase} (h : e.step p fuel phase = .ok (r, e')) :
    (∀ older, (e.recorded older).step p.recording fuel phase = .ok (r, e'.recorded (e.stepCalls p fuel phase ++ older))) ∧
      StepCalls phase (e.stepCalls p fuel phase) r := by
  obtain ⟨new, hrecorded, hnew⟩ := step_recorded h
  have hcalls : e.stepCalls p fuel phase = new := by
    rw [stepCalls, hrecorded]
    exact List.append_nil new
  rw [hcalls]
  exact ⟨hrecorded, hnew⟩

theorem calls_succ {fuel : Nat} {phase : Phase} (hdone : ∀ exit, phase ≠ .done exit) :
    calls p (fuel + 1) phase e =
      match e.step p (fuel + 1) phase with
      | .error _ => []
      | .ok (.error _, _) => (e.stepCalls p (fuel + 1) phase).map (phase.caller, ·)
      | .ok (.ok phase', e') => calls p fuel phase' e' ++ (e.stepCalls p (fuel + 1) phase).map (phase.caller, ·) := by
  cases phase with
  | done exit => exact absurd rfl (hdone exit)
  | _ => rfl

/-- Dispatching with the recording platform is dispatching with the platform, and the calls are what it has recorded. -/
theorem dispatch_recorded {fuel : Nat} {phase : Phase} {r : Except CoreError CoreExit} (h : e.dispatch p fuel phase = .ok (r, e'))
    (older : List CoreExit) :
    (e.recorded older).dispatch p.recording fuel phase = .ok (r, e'.recorded ((calls p fuel phase e).map (·.2) ++ older)) := by
  induction fuel generalizing phase e older with
  | zero => cases h
  | succ fuel ih =>
      by_cases hdone : ∃ exit, phase = .done exit
      · obtain ⟨exit, rfl⟩ := hdone
        cases h
        rfl
      · have hdone' : ∀ exit, phase ≠ .done exit := fun exit heq => hdone ⟨exit, heq⟩
        rw [dispatch_succ hdone'] at h ⊢
        rw [calls_succ hdone']
        cases hstep : e.step p (fuel + 1) phase with
        | error abort =>
            rw [hstep] at h
            cases h
        | ok out =>
            obtain ⟨r₁, e₁⟩ := out
            obtain ⟨hrecorded, -⟩ := stepCalls_spec hstep
            have hnames : ((e.stepCalls p (fuel + 1) phase).map (phase.caller, ·)).map (·.2) = e.stepCalls p (fuel + 1) phase := by
              simp
            rw [hstep] at h
            rw [hrecorded]
            cases r₁ with
            | error err =>
                cases h
                dsimp only
                rw [hnames]
            | ok phase₁ =>
                dsimp only at h ⊢
                rw [ih h, List.map_append, hnames, List.append_assoc]

theorem step_mono {fuel fuel' : Nat} {phase : Phase} {out : Except CoreError Phase × Engine σ} (h : e.step p fuel phase = .ok out)
    (hle : fuel ≤ fuel') : e.step p fuel' phase = .ok out := by
  unfold step at h ⊢
  cases phase with
  | enter id =>
      obtain ⟨⟨cpu, bus, host⟩, code, stats, trap⟩ := e
      unfold enter execute at h ⊢
      dsimp only at h ⊢
      cases hrun : code.run (BlockEnv.helpers p) fuel (bus.watch.codeAddr id)
          { cpu, env := ⟨bus, host, { stats with blockRuns := stats.blockRuns + 1 }⟩ } with
      | error abort =>
          rw [hrun] at h
          cases h
      | ok left =>
          rw [hrun] at h
          rw [HostCode.run_mono hrun hle]
          exact h
  | _ => exact h

theorem dispatch_of_step {fuel fuel' : Nat} {phase phase' : Phase} (hdone : ∀ exit, phase ≠ .done exit)
    (h : e.step p fuel phase = .ok (.ok phase', e')) (hle : fuel ≤ fuel' + 1) :
    e.dispatch p (fuel' + 1) phase = e'.dispatch p fuel' phase' := by
  rw [dispatch_succ hdone, step_mono h hle]

/-- Once the dispatcher was asked for a callback, it is done. -/
theorem dispatch_of_callback {fuel : Nat} {phase : Phase} {n : UInt32} (h : (.dispatcher, .callback n) ∈ calls p fuel phase e) :
    ∃ e', ∀ fuel' > fuel, e.dispatch p fuel' phase = .ok (.ok (.callback n), e') := by
  induction fuel generalizing phase e with
  | zero => cases h
  | succ fuel ih =>
      by_cases hdone : ∃ exit, phase = .done exit
      · obtain ⟨exit, rfl⟩ := hdone
        cases h
      · have hdone' : ∀ exit, phase ≠ .done exit := fun exit heq => hdone ⟨exit, heq⟩
        rw [calls_succ hdone'] at h
        cases hstep : e.step p (fuel + 1) phase with
        | error abort =>
            rw [hstep] at h
            cases h
        | ok out =>
            obtain ⟨r₁, e₁⟩ := out
            obtain ⟨-, hcalls⟩ := stepCalls_spec hstep
            have hhere (hmem : (.dispatcher, .callback n) ∈ (e.stepCalls p (fuel + 1) phase).map (phase.caller, ·)) :
                r₁ = .ok (.done (.callback n)) := by
              obtain ⟨exit, hexit, hpair⟩ := List.mem_map.mp hmem
              obtain ⟨hcaller, rfl⟩ := Prod.mk.inj hpair
              exact hcalls.of_callback hcaller hexit
            rw [hstep] at h
            cases r₁ with
            | error err =>
                cases hhere h
            | ok phase₁ =>
                obtain hlater | hmem := List.mem_append.mp h
                · obtain ⟨e', hrest⟩ := ih hlater
                  refine ⟨e', fun fuel' hlt => ?_⟩
                  obtain ⟨fuel', rfl⟩ : ∃ k, fuel' = k + 1 := ⟨fuel' - 1, by omega⟩
                  rw [dispatch_of_step hdone' hstep (by omega)]
                  exact hrest fuel' (by omega)
                · cases hhere hmem
                  refine ⟨e₁, fun fuel' hlt => ?_⟩
                  obtain ⟨fuel', rfl⟩ : ∃ k, fuel' = k + 2 := ⟨fuel' - 2, by omega⟩
                  rw [dispatch_of_step hdone' hstep (by omega)]
                  rfl

end Engine

namespace Machine

variable {p : Platform σ} {m m' : Machine σ}

/-- The calls of a run with who made them, the newest first. A single step and a slice without the recompiler count as the
dispatcher's. -/
def calls (p : Platform σ) (fuel : Nat) (m : Machine σ) : List (Caller × CoreExit) :=
  match m.core.trap, m.core.resources with
  | false, some ⟨cache, code⟩ => Engine.calls p fuel .lookup ⟨⟨m.cpu, ⟨m.mem, cache⟩, m.host⟩, code, m.core.stats, false⟩
  | _, _ =>
    match (m.recorded []).run p.recording fuel with
    | .ok (_, m') => m'.host.2.map (.dispatcher, ·)
    | .error _ => []

/-- Something that is run on the guest, and makes one call. -/
theorem onGuest_recorded {f : {κ : Type} → [Watcher κ] → Guest κ σ → Except Abort (CoreExit × Guest κ σ)}
    {f' : {κ : Type} → [Watcher κ] → Guest κ (σ × List CoreExit) → Except Abort (CoreExit × Guest κ (σ × List CoreExit))}
    (hf : ∀ {κ : Type} [Watcher κ] (g : Guest κ σ) (older : List CoreExit), f' (g.recorded older) =
      (f g).map fun (exit, g') => (exit, g'.recorded (exit :: older))) (older : List CoreExit) :
    onGuest f' (m.recorded older) = (onGuest f m).map fun (exit, m') => (exit, m'.recorded (exit :: older)) := by
  obtain ⟨⟨settings, _ | ⟨cache, code⟩, trap, stats⟩, cpu, mem, host⟩ := m
  · have hcall := hf ⟨cpu, ⟨mem, ()⟩, host⟩ older
    unfold onGuest
    dsimp only [recorded, Guest.recorded] at hcall ⊢
    rw [hcall]
    cases f ⟨cpu, ⟨mem, ()⟩, host⟩ <;> rfl
  · have hcall := hf ⟨cpu, ⟨mem, cache⟩, host⟩ older
    unfold onGuest
    dsimp only [recorded, Guest.recorded] at hcall ⊢
    rw [hcall]
    cases f ⟨cpu, ⟨mem, cache⟩, host⟩ <;> rfl

theorem trapStep_recorded {κ : Type} [Watcher κ] (p : Platform σ) (g : Guest κ σ) (older : List CoreExit) :
    trapStep p.recording (g.recorded older) = (trapStep p g).map fun (exit, g') => (exit, g'.recorded (exit :: older)) := by
  obtain ⟨cpu, bus, host⟩ := g
  unfold trapStep
  dsimp only [Guest.recorded]
  have hrecording : p.recording.runNormal ⟨{ cpu with cycles := 1, trapSkip := false }, bus, (host, older)⟩ =
      (p.runNormal ⟨{ cpu with cycles := 1, trapSkip := false }, bus, host⟩).map fun (exit, g) =>
        (exit, g.recorded (exit :: older)) := rfl
  rw [hrecording]
  cases p.runNormal ⟨{ cpu with cycles := 1, trapSkip := false }, bus, host⟩ with
  | error abort => rfl
  | ok out =>
      obtain ⟨exit, g⟩ := out
      have hskip : (if g.cpu.trapSkip then g.recorded (exit :: older)
          else p.recording.raiseException debugException none (g.recorded (exit :: older))) =
          (if g.cpu.trapSkip then g else p.raiseException debugException none g).recorded (exit :: older) := by
        by_cases h : g.cpu.trapSkip = true
        · rw [if_pos h, if_pos h]
        · rw [if_neg h, if_neg h]
          rfl
      cases hleft : Cycles.spend cpu.cycles with
      | error abort => rfl
      | ok left => exact congrArg (fun g => (Except.ok (exit, Guest.setCycles g left) : Except Abort _)) hskip

/-- A single step, or a slice without the recompiler: one call of the interpreter, and the run ends with how it ended. -/
theorem run_single (p : Platform σ) (hsingle : m.core.trap = true ∨ m.core.resources = none) :
    ∃ called : Except Abort (CoreExit × Machine σ), (∀ fuel, m.run p fuel = called.map fun (exit, m') => (.ok exit, m')) ∧
      ∀ fuel older, (m.recorded older).run p.recording fuel = called.map fun (exit, m') => (.ok exit, m'.recorded (exit :: older)) := by
  obtain ⟨⟨settings, resources, trap, stats⟩, cpu, mem, host⟩ := m
  cases trap with
  | true =>
      let m₁ : Machine σ := ⟨⟨settings, resources, false, { stats with interpreterSteps := stats.interpreterSteps + 1 }⟩, cpu, mem, host⟩
      refine ⟨onGuest (trapStep p) m₁, fun _ => rfl, fun fuel older => ?_⟩
      have honce := onGuest_recorded (m := m₁) (fun g => trapStep_recorded p g) older
      have hrun : (⟨⟨settings, resources, true, stats⟩, cpu, mem, (host, older)⟩ : Machine _).run p.recording fuel =
          (onGuest (trapStep p.recording) (m₁.recorded older)).map fun (exit, m) => (.ok exit, m) := rfl
      rw [recorded, hrun, honce]
      cases onGuest (trapStep p) m₁ <;> rfl
  | false =>
      obtain rfl : resources = none := hsingle.resolve_left (by simp)
      let m₁ : Machine σ := ⟨⟨settings, none, false, { stats with interpreterRuns := stats.interpreterRuns + 1 }⟩, cpu, mem, host⟩
      refine ⟨onGuest p.runNormal m₁, fun _ => rfl, fun fuel older => ?_⟩
      have honce : onGuest p.recording.runNormal (m₁.recorded older) =
          (onGuest p.runNormal m₁).map fun (exit, m') => (exit, m'.recorded (exit :: older)) :=
        onGuest_recorded (fun _ _ => rfl) older
      have hrun : (⟨⟨settings, none, false, stats⟩, cpu, mem, (host, older)⟩ : Machine _).run p.recording fuel =
          (onGuest p.recording.runNormal (m₁.recorded older)).map fun (exit, m) => (.ok exit, m) := rfl
      rw [recorded, hrun, honce]
      cases onGuest p.runNormal m₁ <;> rfl

theorem calls_single (hsingle : m.core.trap = true ∨ m.core.resources = none) (fuel : Nat) :
    m.calls p fuel = match (m.recorded []).run p.recording fuel with
      | .ok (_, m') => m'.host.2.map (.dispatcher, ·)
      | .error _ => [] := by
  obtain ⟨⟨settings, resources, trap, stats⟩, cpu, mem, host⟩ := m
  cases trap with
  | true => rfl
  | false =>
      obtain rfl : resources = none := hsingle.resolve_left (by simp)
      rfl

/-- A run with the recording platform is a run with the platform, and its calls are what has been recorded. -/
theorem run_recorded {fuel : Nat} {r : Except CoreError CoreExit} (h : m.run p fuel = .ok (r, m')) (older : List CoreExit) :
    (m.recorded older).run p.recording fuel = .ok (r, m'.recorded ((m.calls p fuel).map (·.2) ++ older)) := by
  by_cases hsingle : m.core.trap = true ∨ m.core.resources = none
  · obtain ⟨called, hrun, hrecorded⟩ := run_single p hsingle
    rw [calls_single hsingle, hrecorded, hrecorded]
    rw [hrun] at h
    cases called with
    | error abort => cases h
    | ok out =>
        cases h
        rfl
  · obtain ⟨⟨settings, _ | ⟨cache, code⟩, _ | _, stats⟩, cpu, mem, host⟩ := m
    · exact absurd (.inr rfl) hsingle
    · exact absurd (.inl rfl) hsingle
    · let e : Engine σ := ⟨⟨cpu, ⟨mem, cache⟩, host⟩, code, stats, false⟩
      have hrun (q : Nat) : (⟨⟨settings, some ⟨cache, code⟩, false, stats⟩, cpu, mem, host⟩ : Machine σ).run p q =
          (e.dispatch p q .lookup).map fun out => (out.1, ofEngine settings out.2) := rfl
      have hrun' : (⟨⟨settings, some ⟨cache, code⟩, false, stats⟩, cpu, mem, (host, older)⟩ : Machine _).run p.recording fuel =
          ((e.recorded older).dispatch p.recording fuel .lookup).map fun out => (out.1, ofEngine settings out.2) := rfl
      rw [hrun] at h
      cases hdispatch : e.dispatch p fuel .lookup with
      | error abort =>
          rw [hdispatch] at h
          cases h
      | ok out =>
          obtain ⟨r₁, e₁⟩ := out
          rw [hdispatch] at h
          cases h
          rw [recorded, hrun', Engine.dispatch_recorded hdispatch]
          rfl
    · exact absurd (.inl rfl) hsingle

/-- Whatever the platform does, a run whose dispatcher was asked for a callback returns: with that callback. -/
theorem callback_returned {fuel : Nat} {n : UInt32} (h : (.dispatcher, .callback n) ∈ m.calls p fuel) :
    ∃ m', ∀ fuel' > fuel, m.run p fuel' = .ok (.ok (.callback n), m') := by
  by_cases hsingle : m.core.trap = true ∨ m.core.resources = none
  · obtain ⟨called, hrun, hrecorded⟩ := run_single p hsingle
    rw [calls_single hsingle, hrecorded] at h
    cases called with
    | error abort => cases h
    | ok out =>
        obtain ⟨exit, m₁⟩ := out
        cases List.mem_singleton.mp h
        exact ⟨m₁, fun fuel' _ => hrun fuel'⟩
  · obtain ⟨⟨settings, _ | ⟨cache, code⟩, _ | _, stats⟩, cpu, mem, host⟩ := m
    · exact absurd (.inr rfl) hsingle
    · exact absurd (.inl rfl) hsingle
    · obtain ⟨e', hdispatch⟩ := Engine.dispatch_of_callback h
      refine ⟨ofEngine settings e', fun fuel' hlt => ?_⟩
      have hrun := congrArg (fun x => x.map fun out => (out.1, ofEngine settings out.2)) (hdispatch fuel' hlt)
      exact hrun
    · exact absurd (.inl rfl) hsingle

/-! ### A platform that asks for one callback -/

/-- Jumps to where no code is and asks for a callback at the first call; there is nothing to do at the others. -/
def oneCallback : Platform Bool where
  runNormal
    | ⟨cpu, bus, false⟩ => .ok (.callback 5, ⟨{ cpu with eip := 0x2000 }, bus, true⟩)
    | ⟨cpu, bus, true⟩ => .ok (.resume, ⟨cpu, bus, true⟩)
  runFull g := .ok (.resume, g)
  raiseException _ _ g := g
  pageFault _ g := g
  irqPending _ _ := false

/-- A floating-point instruction and a jump back to it. -/
def fpuLoop : Memory :=
  onePage 0 [0xD9, 0xC0, 0xEB, 0xFC]

def fpuCpu : Cpu :=
  { Cpu.flat32 with cycles := 10 }

/-- An enabled recompiler that has seen no code yet, on a platform with a state. -/
def fpuMachine {τ : Type} (cpu : Cpu) (host : τ) : Machine τ where
  core := { settings := scantSettings, resources := some ⟨scantCache, scantCode⟩ }
  cpu := cpu
  mem := fpuLoop
  host := host

/-- Where no code is, the interpreter takes the slice. -/
theorem lookup_codeless {τ : Type} {q : Platform τ} {cpu : Cpu} {mem : Memory} {c : Cache} {code : HostCode} {host : τ} {exit : CoreExit}
    {g : Guest Cache τ} {paddr : UInt32} (hlinear : cpu.ipLinear = paddr) (hresolve : mem.resolve paddr false = .ok paddr)
    (hmonitor : c.monitorOf (pageOf paddr) = none) (hflags : mem.pageFlags (pageOf paddr) = PageFlag.noCode) (hcall : q.runNormal ⟨cpu, ⟨mem, c⟩, host⟩ = .ok (exit, g))
    (stats : Stats) (trap : Bool) : Engine.lookup q ⟨⟨cpu, ⟨mem, c⟩, host⟩, code, stats, trap⟩ =
      .ok (.ok (.done exit), ⟨g, code,
        { stats with lookups := stats.lookups + 1, interpreterRuns := stats.interpreterRuns + 1 }, trap⟩) := by
  have hcode : (!PageFlag.has PageFlag.noCode PageFlag.readable || PageFlag.has PageFlag.noCode PageFlag.noCode) = true := by decide
  have hpage : c.codePage mem cpu.ipLinear cpu.codeBig none = .ok (.ok none, mem, c) := by
    simp only [Cache.codePage, hlinear, hresolve, hmonitor, Cache.codePage.install, hflags, hcode, if_true]
  simp only [Engine.lookup, hpage, hcall]

/-- Beyond memory there is no code. -/
theorem codeless_fpuLoop : fpuLoop.resolve 0x2000 false = .ok 0x2000 ∧ fpuLoop.pageFlags (pageOf 0x2000) = PageFlag.noCode := by
  decide +kernel

theorem calls_codeless :
    (fpuMachine { fpuCpu with eip := 0x2000 } false).calls oneCallback 1 = [(.dispatcher, .callback 5)] := by
  obtain ⟨hresolve, hflags⟩ := codeless_fpuLoop
  have hmonitor : scantCache.monitorOf (pageOf 0x2000) = none := by simp [scantCache, Cache.monitorOf, Cache.create]
  let cpu : Cpu := { fpuCpu with eip := 0x2000 }
  let e : Engine Bool := ⟨⟨cpu, ⟨fpuLoop, scantCache⟩, false⟩, scantCode, {}, false⟩
  have hlinear : cpu.ipLinear = 0x2000 := by decide
  have hstep : e.step oneCallback 1 .lookup = .ok (.ok (.done (.callback 5)), _) :=
    lookup_codeless hlinear hresolve hmonitor hflags rfl {} false
  have hrecorded : (e.recorded []).step oneCallback.recording 1 .lookup =
      .ok (.ok (.done (.callback 5)), ⟨⟨cpu, ⟨fpuLoop, scantCache⟩, (true, [.callback 5])⟩, scantCode, _, false⟩) :=
    lookup_codeless hlinear hresolve hmonitor hflags rfl {} false
  have hcalls : (fpuMachine cpu false).calls oneCallback 1 = Engine.calls oneCallback 1 .lookup e := rfl
  rw [hcalls, Engine.calls_succ (by simp), hstep, Engine.stepCalls, hrecorded]
  rfl

/-- The dispatcher is asked for the callback if the run starts where no code is. -/
theorem callback_returned_codeless :
    Core.enable { settings := scantSettings } true = .ok (fpuMachine { fpuCpu with eip := 0x2000 } false).core ∧
      (.dispatcher, .callback 5) ∈ (fpuMachine { fpuCpu with eip := 0x2000 } false).calls oneCallback 1 ∧
      ∃ m', (fpuMachine { fpuCpu with eip := 0x2000 } false).run oneCallback 2 = .ok (.ok (.callback 5), m') := by
  have hcalls : (.dispatcher, .callback 5) ∈ (fpuMachine { fpuCpu with eip := 0x2000 } false).calls oneCallback 1 := by
    rw [calls_codeless]
    exact List.mem_singleton_self _
  obtain ⟨m', hrun⟩ := callback_returned hcalls
  exact ⟨enable_scantSettings, hcalls, m', hrun 2 (by decide)⟩

/-- The block for the floating-point instruction, as it comes from the first compilation. -/
def fpuBlock : Compilation :=
  scantCompilation fpuLoop fpuCpu 0

theorem ops_fpuBlock : fpuBlock.ops = [.act (.enter 0), .act (.setEip 0), .act (.interpret 2), .act (.subCycles 2), .act (.setEip 0),
    .link 0 (HostCode.linkEntryAddr 0 .first).toUInt64] := by
  decide +kernel

/-- If the call from the block asks for a callback and leads to where no code is, the block leaves, and the dispatcher leaves
the rest of the slice to the interpreter. -/
theorem exists_run_fpu {τ : Type} (q : Platform τ) (host host' host'' : τ) {n : UInt32}
    (hfirst : ∀ {κ : Type} [Watcher κ] (cpu : Cpu) (bus : Bus κ),
      q.runNormal ⟨cpu, bus, host⟩ = .ok (.callback n, ⟨{ cpu with eip := 0x2000 }, bus, host'⟩))
    (hsecond : ∀ {κ : Type} [Watcher κ] (cpu : Cpu) (bus : Bus κ), q.runNormal ⟨cpu, bus, host'⟩ = .ok (.resume, ⟨cpu, bus, host''⟩)) :
    ∃ least m', m'.host = host'' ∧ ∀ fuel ≥ least, (fpuMachine fpuCpu host).run q fuel = .ok (.ok .resume, m') := by
  obtain ⟨mem, c, code, hresult, hc, hmem, hhoused, hbackend, haddr, -⟩ := exists_compiled_housed
    (show fpuLoop.mapped = [] from rfl) (show fpuLoop.resolve fpuCpu.ipLinear false = .ok 0 by decide +kernel)
    (by decide +kernel) (by decide +kernel)
    (fun mem c _ => mem.released.isEmpty && (c.block 0).live && !(c.block 0).isCompanion && (c.monitor 0).page == 0 &&
      !(c.monitor 1).installed && c.monitors.size == 2) (by decide +kernel)
  simp only [Bool.and_eq_true, Bool.not_eq_true', beq_iff_eq, Array.isEmpty_iff] at hc
  obtain ⟨⟨⟨⟨⟨hreleased, hlive⟩, hord⟩, hpage⟩, hidle⟩, hsize⟩ := hc
  obtain rfl := Memory.eq_of_unreleased hmem hreleased
  have hid : fpuBlock.block = 0 := by decide +kernel
  rw [show (scantCompilation fpuLoop fpuCpu 0).block = 0 from hid] at hresult
  have hrunnable : c.Runnable 0 := ⟨hlive, hord⟩
  have hnone : c.monitorOf (pageOf 0x2000) = none :=
    monitorOf_eq_none hhoused.sound.watches (by rw [hpage]; decide) hidle hsize
  let cpu : Cpu := { fpuCpu with eip := 0x2000 }
  let e : Engine τ := ⟨⟨fpuCpu, ⟨fpuLoop, scantCache⟩, host⟩, scantCode, {}, false⟩
  let e₁ : Engine τ := ⟨⟨fpuCpu, ⟨fpuLoop, scantWatching 0 true⟩, host⟩, scantCode, { lookups := 1 }, false⟩
  let e₂ : Engine τ := ⟨⟨fpuCpu, ⟨fpuLoop, c⟩, host⟩, code, { lookups := 1, compilations := 1 }, false⟩
  have hlookup (fuel : Nat) : e.step q fuel .lookup = .ok (.ok (.create 0), e₁) := by
    have hcode := codePage_scantCache (show fpuLoop.resolve fpuCpu.ipLinear false = .ok 0 by decide +kernel)
      (show fpuLoop.pageFlags (pageOf 0) = PageFlag.ram by decide +kernel) true
    have hfind := find_scantWatching (pageOf 0) true (pageOffset fpuCpu.ipLinear)
    have hbig : fpuCpu.codeBig = true := rfl
    simp only [Engine.step, Engine.lookup, e, hbig, hcode, hfind]
    rfl
  have hheavy : e₁.heavy 0 = false := countsAsData_scantWatching 0 true _
  have hcompile : ∀ fuel, e₁.step q fuel (.create 0) = .ok (.ok (.enter 0), e₂) := Engine.step_of_result hheavy hresult
  let stats : Stats := { lookups := 1, compilations := 1, blockRuns := 1 }
  let s : Activation (BlockEnv τ) := { cpu := fpuCpu, env := ⟨⟨fpuLoop, c⟩, host, stats⟩, running := 0 }
  let s' : Activation (BlockEnv τ) := { s with cpu, env := ⟨⟨fpuLoop, c⟩, host', { stats with interpreterSteps := 1 }⟩ }
  have hcall : (Action.interpret 2).perform (BlockEnv.helpers q) s = .ok (some .normal, s') := by
    have hinterpret := BlockEnv.interpret_callback 2 (some 0) (hfirst { fpuCpu with cycles := 1 } (⟨fpuLoop, c⟩ : Bus Cache))
      (fun id hid => by cases hid; exact hrunnable.lt) stats
    have hperform : (Action.interpret 2).perform (BlockEnv.helpers q) s =
        (BlockEnv.interpret q 2 (some 0) fpuCpu ⟨⟨fpuLoop, c⟩, host, stats⟩).map (Action.afterCall s.temps 0 0) := rfl
    rw [hperform, hinterpret]
    rfl
  have hpass : MicroOp.Performs (BlockEnv.helpers q) fpuBlock.ops fpuBlock.ops
      { cpu := fpuCpu, env := ⟨⟨fpuLoop, c⟩, host, stats⟩ } (.exit .normal s') := by
    rw [ops_fpuBlock]
    refine (Lowering.performs_enter (by decide : ¬fpuCpu.cycles ≤ 0) 0).2 ?_
    exact (MicroOp.Performs.act_iff rfl).2 ((MicroOp.Performs.exit_iff hcall).2 rfl)
  obtain ⟨k, hk, -⟩ := hhoused.stands hbackend haddr hrunnable
  obtain rfl := List.mem_singleton.mp (List.mem_of_find?_eq_some hk)
  obtain ⟨least, henter⟩ := hhoused.exists_enter hbackend haddr hrunnable hk { lookups := 1, compilations := 1 } hpass false
  let e₃ : Engine τ := ⟨⟨cpu, ⟨fpuLoop, c⟩, host'⟩, code, s'.env.stats, false⟩
  have hblock : e₂.step q least (.enter 0) = .ok (.ok (.leave ⟨.normal, some 0, 0⟩), e₃) := by
    simp only [Engine.step, e₂, henter]
    rfl
  have hleave (fuel : Nat) : e₃.step q fuel (.leave ⟨.normal, some 0, 0⟩) = .ok (.ok .lookup, e₃) := rfl
  obtain ⟨hresolve, hflags⟩ := codeless_fpuLoop
  let stats' : Stats := { s'.env.stats with lookups := s'.env.stats.lookups + 1, interpreterRuns := s'.env.stats.interpreterRuns + 1 }
  let e₄ : Engine τ := ⟨⟨cpu, ⟨fpuLoop, c⟩, host''⟩, code, stats', false⟩
  have hlast (fuel : Nat) : e₃.step q fuel .lookup = .ok (.ok (.done .resume), e₄) :=
    lookup_codeless (by decide) hresolve hnone hflags (hsecond cpu _) _ false
  refine ⟨least + 6, ofEngine scantSettings e₄, rfl, fun fuel hfuel => ?_⟩
  obtain ⟨k, rfl⟩ : ∃ k, fuel = k + 6 := ⟨fuel - 6, by omega⟩
  have hdispatch : e.dispatch q (k + 6) .lookup = .ok (.ok .resume, e₄) := by
    rw [Engine.dispatch_of_step (by simp) (hlookup 0) (by omega), Engine.dispatch_of_step (by simp) (hcompile 0) (by omega),
      Engine.dispatch_of_step (by simp) hblock (by omega), Engine.dispatch_of_step (by simp) (hleave 0) (by omega),
      Engine.dispatch_of_step (by simp) (hlast 0) (by omega)]
    rfl
  exact congrArg (fun x => x.map fun out => (out.1, ofEngine scantSettings out.2)) hdispatch

/-- A run in which the interpreter asked for a callback, which is not what the run returns: a running block was asked for it. -/
theorem callback_lost_fpu :
    ∃ fuel m', Core.enable { settings := scantSettings } true = .ok (fpuMachine fpuCpu false).core ∧
      .callback 5 ∈ ((fpuMachine fpuCpu false).calls oneCallback fuel).map (·.2) ∧
      (fpuMachine fpuCpu false).run oneCallback fuel = .ok (.ok .resume, m') := by
  obtain ⟨least, m', -, hrun⟩ := exists_run_fpu oneCallback false true true (fun _ _ => rfl) (fun _ _ => rfl)
  obtain ⟨least', m'', hhost, hrecorded⟩ := exists_run_fpu oneCallback.recording (false, []) (true, [.callback 5])
    (true, [.resume, .callback 5]) (fun _ _ => rfl) (fun _ _ => rfl)
  have hplain := hrun (max least least') (le_max_left ..)
  refine ⟨_, m', enable_scantSettings, ?_, hplain⟩
  -- The recording platform tells which calls there were.
  have hsame := (run_recorded hplain []).symm.trans (hrecorded _ (le_max_right ..))
  rw [← (Prod.mk.inj (Except.ok.inj hsame)).2] at hhost
  have hcalls := (Prod.mk.inj hhost).2
  rw [List.append_nil] at hcalls
  rw [hcalls]
  simp

end Machine

end Recompiler
