import Recompiler.Interpreter
import Recompiler.Dispatch.BlockEnv
import Recompiler.Proofs.Cache.Lineup
import Recompiler.Proofs.Code.Running
import Recompiler.Proofs.Compile.Create
import Recompiler.Proofs.Guest.Division

/-! Every store passes the cache, whoever makes it: a device, the interpreter or a running block. What a store, a change
to memory behind the cache's back, a page that is watched, a link and a compilation all keep is kept by whatever the
dispatcher does. -/

namespace Recompiler

open Cache

variable {σ : Type}

/-! ### Stores through the bus -/

namespace Bus

variable {b : Bus Cache} {linear value : UInt32} {w : Width}

theorem saved_store (h : b.watch.Sound) (hfit : pageOffset linear + w.bytes ≤ pageSize) :
    Saved b.mem b.watch (b.store linear w value).mem (b.store linear w value).watch :=
  .write h hfit

theorem saved_storeBytes (h : b.watch.Sound) (bytes : List UInt8) :
    Saved b.mem b.watch (b.storeBytes linear bytes).2.mem (b.storeBytes linear bytes).2.watch := by
  induction bytes generalizing b linear with
  | nil => exact .refl h b.mem
  | cons x rest ih =>
      unfold storeBytes
      split
      · exact .refl h b.mem
      · rename_i paddr hpaddr
        have hstore : Saved b.mem b.watch (b.store paddr .w8 x.toUInt32).mem (b.store paddr .w8 x.toUInt32).watch :=
          saved_store h (pageOffset_lt paddr)
        exact hstore.trans (ih hstore.sound)

theorem saved_write (h : b.watch.Sound) :
    Saved b.mem b.watch (b.write linear w value).2.mem (b.write linear w value).2.watch := by
  unfold write
  split
  · rename_i hfit
    split
    · exact .refl h b.mem
    · rename_i paddr hpaddr
      refine saved_store h ?_
      rw [Memory.pageOffset_of_resolve hpaddr]
      simpa [fitsInPage] using hfit
  · split
    · exact .refl h b.mem
    · exact .refl h b.mem
    · exact saved_storeBytes h _

/-- What a bus becomes when memory is written through it and changed behind the cache's back only as `may` allows. -/
inductive Reaches {κ : Type} [Watcher κ] (may : Memory → Memory → Prop) (b : Bus κ) : Bus κ → Prop where
  | refl : Reaches may b b
  | write {b' : Bus κ} (h : Reaches may b b') (linear : UInt32) (w : Width) (value : UInt32) :
      Reaches may b (b'.write linear w value).2
  | writeBytewise {b' : Bus κ} (h : Reaches may b b') (linear : UInt32) (w : Width) (value : UInt32) :
      Reaches may b (b'.writeBytewise linear w value).2
  | change {b' : Bus κ} (h : Reaches may b b') (mem : Memory) (hmem : may b'.mem mem) : Reaches may b ⟨mem, b'.watch⟩

theorem Reaches.trans {κ : Type} [Watcher κ] {may : Memory → Memory → Prop} {b b' b'' : Bus κ} (h : b.Reaches may b')
    (h' : b'.Reaches may b'') : b.Reaches may b'' := by
  induction h' with
  | refl => exact h
  | write _ linear w value ih => exact ih.write linear w value
  | writeBytewise _ linear w value ih => exact ih.writeBytewise linear w value
  | change _ mem hmem ih => exact ih.change mem hmem

end Bus

/-- What may be done to memory other than through the bus. -/
structure Regime where
  /-- The memory a machine may start with. -/
  begins : Memory → Prop
  /-- The changes that may be made behind the cache's back. -/
  may : Memory → Memory → Prop

/-- Pages are never remapped, and RAM changes through the bus only. -/
def Regime.identity : Regime where
  begins mem := mem.mapped = []
  may mem mem' := mem'.ram = mem.ram ∧ mem'.mapped = mem.mapped

/-- Memory may change in any way. -/
def Regime.free : Regime where
  begins _ := True
  may _ _ := True

/-- A platform that changes memory through the bus, and otherwise only as it may. -/
structure Platform.Confined (R : Regime) (p : Platform σ) : Prop where
  runNormal : ∀ {κ : Type} [Watcher κ] (g : Guest κ σ) {exit : CoreExit} {g' : Guest κ σ},
    p.runNormal g = .ok (exit, g') → g.bus.Reaches R.may g'.bus
  runFull : ∀ {κ : Type} [Watcher κ] (g : Guest κ σ) {exit : CoreExit} {g' : Guest κ σ},
    p.runFull g = .ok (exit, g') → g.bus.Reaches R.may g'.bus
  raiseException : ∀ {κ : Type} [Watcher κ] (vector : UInt8) (errorCode : Option UInt32) (g : Guest κ σ),
    g.bus.Reaches R.may (p.raiseException vector errorCode g).bus
  pageFault : ∀ {κ : Type} [Watcher κ] (fault : PageFault) (g : Guest κ σ), g.bus.Reaches R.may (p.pageFault fault g).bus

/-- A platform that leaves the code size to its caller. -/
structure Platform.KeepsSize (p : Platform σ) : Prop where
  runNormal : ∀ {κ : Type} [Watcher κ] (g : Guest κ σ) {exit : CoreExit} {g' : Guest κ σ},
    p.runNormal g = .ok (exit, g') → g'.cpu.codeBig = g.cpu.codeBig
  runFull : ∀ {κ : Type} [Watcher κ] (g : Guest κ σ) {exit : CoreExit} {g' : Guest κ σ},
    p.runFull g = .ok (exit, g') → g'.cpu.codeBig = g.cpu.codeBig
  raiseException : ∀ {κ : Type} [Watcher κ] (vector : UInt8) (errorCode : Option UInt32) (g : Guest κ σ),
    (p.raiseException vector errorCode g).cpu.codeBig = g.cpu.codeBig
  pageFault : ∀ {κ : Type} [Watcher κ] (fault : PageFault) (g : Guest κ σ),
    (p.pageFault fault g).cpu.codeBig = g.cpu.codeBig

/-- A condition on the compilations so far, memory, cache and host code. -/
abbrev Condition := List Compilation → Memory → Cache → HostCode → Prop

/-- A condition that no store and no change to memory behind the cache's back ends. -/
structure Durable (R : Regime) (I : Condition) : Prop where
  sound : ∀ {log mem c code}, I log mem c code → c.Sound
  change : ∀ {log mem mem' c code}, I log mem c code → R.may mem mem' → I log mem' c code
  stored : ∀ {log mem mem' c c' code}, I log mem c code → Saved mem c mem' c' → I log mem' c' code

/-- A durable condition that no link ends. -/
structure Lasting (R : Regime) (I : Condition) : Prop extends Durable R I where
  link : ∀ {log mem c code id slot target}, I log mem c code → c.Runnable id → c.Runnable target →
    (c.linkSlot id slot).target = none → I log mem (c.link id slot target) code

/-- A condition that is kept by everything the dispatcher does, given that the compilations are good ones. -/
structure Sustained (R : Regime) (good : Compilation → Prop) (I : Condition) : Prop extends Lasting R I where
  paged : ∀ {log mem mem' c c' code page linear code32 r}, I log mem c code →
    c.codePage mem linear code32 none = .ok (r, mem', c') → Paged none page code32 mem c mem' c' → I log mem' c' code
  compile : ∀ {log k r mem' c' code'}, I log k.mem k.cache k.code → k.Pending → good k →
    k.result = .ok (r, mem', c', code') → I (k :: log) mem' c' code'

/-- A condition that is sustained and holds of a new cache. -/
structure Upkeep (R : Regime) (good : Compilation → Prop) (I : Condition) : Prop extends Sustained R good I where
  start : ∀ {settings mem code}, R.begins mem → settings.check = .ok () → HostCode.create settings = .ok code →
    I [] mem (Cache.create settings code.base Arena.blocksStart code.stubs.exits) code

section

variable {R : Regime} {I : Condition} {log : List Compilation} {code : HostCode}

theorem Durable.reaches (hI : Durable R I) {b b' : Bus Cache} (h : I log b.mem b.watch code) (hb : b.Reaches R.may b') :
    I log b'.mem b'.watch code := by
  induction hb with
  | refl => exact h
  | write _ linear w value ih => exact hI.stored ih (Bus.saved_write (hI.sound ih))
  | writeBytewise _ linear w value ih => exact hI.stored ih (Bus.saved_storeBytes (hI.sound ih) _)
  | change _ mem hmem ih => exact hI.change ih hmem

end

/-! ### The interpreter -/

namespace Interpreter

variable {κ : Type} [Watcher κ] {α β : Type} {may : Memory → Memory → Prop} {b : Bool}

/-- In code of the size `b`, an instruction changes memory through the bus only and leaves the code size alone. -/
def Exec.Confined (may : Memory → Memory → Prop) (b : Bool) (x : Exec κ α) : Prop :=
  ∀ s, s.1.codeBig = b → Bus.Reaches may s.2 (x.run s).2.2 ∧ (x.run s).2.1.codeBig = b

namespace Exec.Confined

theorem pure (a : α) : Exec.Confined may b (Pure.pure a : Exec κ α) := fun _ hs => ⟨.refl, hs⟩

theorem throw (t : Trap) : Exec.Confined may b (MonadExcept.throw t : Exec κ α) := fun _ hs => ⟨.refl, hs⟩

theorem bind {x : Exec κ α} {f : α → Exec κ β} (hx : Exec.Confined may b x) (hf : ∀ a, Exec.Confined may b (f a)) :
    Exec.Confined may b (x >>= f) := by
  intro s hs
  obtain ⟨hreach, hsize⟩ := hx s hs
  change Bus.Reaches may s.2 (ExceptT.bindCont f (x.run s).1 (x.run s).2).2.2 ∧
    (ExceptT.bindCont f (x.run s).1 (x.run s).2).2.1.codeBig = b
  cases hr : (x.run s).1 with
  | ok a =>
      obtain ⟨hreach', hsize'⟩ := hf a _ hsize
      exact ⟨hreach.trans hreach', hsize'⟩
  | error t => exact ⟨hreach, hsize⟩

/-- The processor that an instruction looks at has the code size. -/
theorem bindCpu {f : Cpu → Exec κ β} (hf : ∀ c, c.codeBig = b → Exec.Confined may b (f c)) :
    Exec.Confined may b (Exec.cpu >>= f) :=
  fun s hs => hf s.1 hs s hs

theorem modifyCpu {f : Cpu → Cpu} (hf : ∀ c, c.codeBig = b → (f c).codeBig = b) :
    Exec.Confined may b (Exec.modifyCpu f : Exec κ Unit) :=
  fun s hs => ⟨.refl, hf s.1 hs⟩

theorem setEip (eip : UInt32) : Exec.Confined may b (Exec.setEip eip : Exec κ Unit) := fun _ hs => ⟨.refl, hs⟩

theorem setStackPointer (sp : UInt32) : Exec.Confined may b (Exec.setStackPointer sp : Exec κ Unit) := fun _ hs => ⟨.refl, hs⟩

theorem load (linear : UInt32) (w : Width) : Exec.Confined may b (Exec.load linear w : Exec κ UInt32) := by
  rintro ⟨cpu, bus⟩ hs
  change Bus.Reaches may bus (Exec.load linear w (cpu, bus)).2.2 ∧ (Exec.load linear w (cpu, bus)).2.1.codeBig = b
  unfold Exec.load
  dsimp only
  split <;> exact ⟨.refl, hs⟩

theorem store (linear : UInt32) (w : Width) (value : UInt32) :
    Exec.Confined may b (Exec.store linear w value : Exec κ Unit) := by
  rintro ⟨cpu, bus⟩ hs
  have hwrite : Bus.Reaches may bus (bus.write linear w value).2 := .write .refl linear w value
  change Bus.Reaches may bus (Exec.store linear w value (cpu, bus)).2.2 ∧ (Exec.store linear w value (cpu, bus)).2.1.codeBig = b
  unfold Exec.store
  dsimp only
  split
  all_goals
    rename_i hw
    rw [hw] at hwrite
    exact ⟨hwrite, hs⟩

theorem read (op : Operand) (w : Width) : Exec.Confined may b (Exec.read op w : Exec κ UInt32) := by
  refine .bindCpu fun c _ => ?_
  cases op with
  | reg r => exact .pure _
  | imm i => exact .pure _
  | mem a => exact .load _ _

theorem write (op : Operand) (w : Width) (value : UInt32) : Exec.Confined may b (Exec.write op w value : Exec κ Unit) := by
  unfold Exec.write
  cases op with
  | reg r => exact .modifyCpu fun _ hc => hc
  | imm i => exact .throw _
  | mem a => exact .bindCpu fun c _ => .store _ _ _

theorem push (w : Width) (value : UInt32) : Exec.Confined may b (Exec.push w value : Exec κ Unit) :=
  .bindCpu fun _ _ => .bind (.store _ _ _) fun _ => .modifyCpu fun _ hc => hc

theorem popAt (sp : UInt32) (w : Width) : Exec.Confined may b (Exec.popAt sp w : Exec κ (UInt32 × UInt32)) :=
  .bindCpu fun _ _ => .bind (.load _ _) fun _ => .pure _

theorem stackPointer : Exec.Confined may b (Exec.stackPointer : Exec κ UInt32) :=
  .bindCpu fun _ _ => .pure _

end Exec.Confined

theorem codeBig_divide {c c' : Cpu} {w : Width} {signed : Bool} {divisor : UInt32} (h : c.divide w signed divisor = some c') :
    c'.codeBig = c.codeBig := by
  obtain ⟨⟨q, r⟩, -, rfl⟩ := Option.map_eq_some_iff.1 h
  rfl

theorem execute_confined (may : Memory → Memory → Prop) (b : Bool) (first : UInt8) (i : Instruction) :
    Exec.Confined may b (execute first i : Exec κ Outcome) := by
  unfold execute
  refine .bindCpu fun c hc => ?_
  dsimp only
  split
  all_goals
    repeat' with_reducible first
      | exact .pure _
      | exact .setEip _
      | exact .setStackPointer _
      | exact .read _ _
      | exact .write _ _ _
      | exact .push _ _
      | exact .popAt _ _
      | exact .stackPointer
      | exact .throw _
      | refine .bindCpu fun _ _ => ?_
      | refine .bind ?_ fun _ => ?_
      | split
  case h_1.refine_1 =>
    rename_i hsize _ _ hdivide
    exact .modifyCpu fun _ _ => (codeBig_divide ((divide_eq ..).symm.trans hdivide)).trans hsize
  all_goals exact .modifyCpu fun _ hc => hc

theorem step_confined (may : Memory → Memory → Prop) {g g' : Guest κ Interpreter} {outcome : Outcome}
    (h : step g = .ok (outcome, g')) : g.bus.Reaches may g'.bus ∧ g'.cpu.codeBig = g.cpu.codeBig := by
  obtain ⟨cpu, bus, host⟩ := g
  unfold step at h
  dsimp only at h
  split at h
  · split at h
    · cases h
    · cases h
      exact ⟨.refl, rfl⟩
  · rename_i i hdecode
    have hexec := execute_confined (κ := κ) may cpu.codeBig ((fetch cpu bus.mem Encoding.maxLength cpu.eip).1.headD 0) i
      (cpu, bus) rfl
    split at h
    · rename_i hrun
      rw [hrun] at hexec
      cases h
      exact hexec
    · rename_i hrun
      rw [hrun] at hexec
      split at h
      · cases h
      · cases h
        exact hexec
      · cases h
        exact hexec

theorem runSteps_confined (may : Memory → Memory → Prop) {n : Nat} {g g' : Guest κ Interpreter} {exit : CoreExit}
    (h : runSteps n g = .ok (exit, g')) : g.bus.Reaches may g'.bus ∧ g'.cpu.codeBig = g.cpu.codeBig := by
  induction n generalizing g with
  | zero =>
      cases h
      exact ⟨.refl, rfl⟩
  | succ n ih =>
      rw [runSteps] at h
      have hbus : (g.setCycles (g.cpu.cycles - 1)).bus = g.bus := rfl
      have hcpu : (g.setCycles (g.cpu.cycles - 1)).cpu.codeBig = g.cpu.codeBig := rfl
      rw [← hbus, ← hcpu]
      generalize g.setCycles (g.cpu.cycles - 1) = g₁ at h
      cases hstep : step g₁ with
      | error abort =>
          rw [hstep] at h
          cases h
      | ok out =>
          obtain ⟨outcome, g₂⟩ := out
          have hconfined := step_confined may hstep
          rw [hstep] at h
          cases outcome with
          | next =>
              obtain ⟨hreach, hsize⟩ := ih h
              exact ⟨hconfined.1.trans hreach, hsize.trans hconfined.2⟩
          | callback k =>
              cases h
              exact hconfined
          | halt =>
              cases h
              exact hconfined

theorem platform_confined (R : Regime) : platform.Confined R where
  runNormal _ _ _ h := (runSteps_confined R.may h).1
  runFull g _ _ h := by
    have hrun : runSteps _ { g with host := { g.host with fullRuns := g.host.fullRuns + 1 } } = .ok _ := h
    exact (runSteps_confined R.may hrun).1
  raiseException _ _ _ := .refl
  pageFault _ _ := .refl

theorem platform_keepsSize : platform.KeepsSize where
  runNormal _ _ _ h := (runSteps_confined (fun _ _ => True) h).2
  runFull g _ _ h := by
    have hrun : runSteps _ { g with host := { g.host with fullRuns := g.host.fullRuns + 1 } } = .ok _ := h
    exact (runSteps_confined (fun _ _ => True) hrun).2
  raiseException _ _ _ := rfl
  pageFault _ _ := rfl

end Interpreter

/-! ### Running blocks -/

namespace BlockEnv

variable {p : Platform σ} {R : Regime} {I : Condition} {log : List Compilation} {code : HostCode}

/-- A condition holds of what a running block finds. -/
def Keeps (I : Condition) (log : List Compilation) (code : HostCode) (env : BlockEnv σ) : Prop :=
  I log env.bus.mem env.bus.watch code

theorem saved_storeBytes {bus : Bus Cache} (h : bus.watch.Sound) (running : Option BlockId) (linear : UInt32)
    (bytes : List UInt8) :
    Saved bus.mem bus.watch (storeBytes running linear bytes bus).2.mem (storeBytes running linear bytes bus).2.watch := by
  induction bytes generalizing bus linear with
  | nil =>
      unfold storeBytes
      exact .refl h bus.mem
  | cons x rest ih =>
      obtain ⟨mem, cache⟩ := bus
      unfold storeBytes
      split
      · exact .refl h mem
      · rename_i paddr hpaddr
        have hstore : Saved mem cache (cache.writeChecked mem paddr .w8 x.toUInt32 running).2.1
            (cache.writeChecked mem paddr .w8 x.toUInt32 running).2.2 :=
          .writeChecked (w := .w8) h (pageOffset_lt paddr) running
        split
        · rename_i hw
          rw [hw] at hstore
          exact hstore
        · rename_i mem₁ cache₁ hw
          rw [hw] at hstore
          have hrest := @ih ⟨mem₁, cache₁⟩ hstore.sound (linear + 1)
          exact hstore.trans hrest

theorem saved_storeLinear {bus : Bus Cache} (h : bus.watch.Sound) (running : Option BlockId) (linear : UInt32) (w : Width)
    (value : UInt32) :
    Saved bus.mem bus.watch (storeLinear linear w value running bus).2.mem (storeLinear linear w value running bus).2.watch := by
  obtain ⟨mem, cache⟩ := bus
  unfold storeLinear
  dsimp only
  split
  · exact .refl h mem
  · rename_i paddr hpaddr
    split
    · rename_i hpage
      have hfit : pageOffset paddr + w.bytes ≤ pageSize := by
        have hlast := fits_of_pageOf_eq linear (n := w.bytes - 1) (by cases w <;> decide) hpage
        have := bytes_pos w
        rw [Memory.pageOffset_of_resolve hpaddr]
        omega
      exact .writeChecked h hfit running
    · split
      · exact .refl h mem
      · exact saved_storeBytes h running _ _

/-- Delivering a page fault. -/
theorem pageFault_keeps (hI : Durable R I) (hp : p.Confined R) {α : Type} (fault : PageFault) :
    HelperCall.Keeps (pageFault p fault : HelperCall (BlockEnv σ) α) (Keeps I log code) := by
  rintro cpu ⟨bus, host, stats⟩ r cpu' env' hkept hr
  have hreach := hp.pageFault fault ⟨cpu, bus, host⟩
  cases hr
  exact hI.reaches hkept hreach

theorem load_keeps (hI : Durable R I) (hp : p.Confined R) (linear : UInt32) (w : Width) :
    HelperCall.Keeps (load p linear w) (Keeps I log code) := by
  intro cpu env r cpu' env' hkept hr
  unfold load at hr
  cases hload : env.bus.mem.loadLinear linear w with
  | ok value =>
      simp only [hload] at hr
      cases hr
      exact hkept
  | error fault =>
      simp only [hload] at hr
      exact pageFault_keeps hI hp _ _ _ _ _ _ hkept hr

theorem store_keeps (hI : Durable R I) (hp : p.Confined R) (linear : UInt32) (w : Width) (value : UInt32)
    (running : Option BlockId) : HelperCall.Keeps (store p linear w value running) (Keeps I log code) := by
  rintro cpu ⟨bus, host, stats⟩ r cpu' env' hkept hr
  have hsaved := saved_storeLinear (hI.sound hkept) running linear w value
  unfold store at hr
  dsimp only at hr hsaved
  generalize storeLinear linear w value running bus = out at hr hsaved
  have hkept' := hI.stored hkept hsaved
  match out, hr, hkept' with
  | (.error fault, bus'), hr, hkept' => exact pageFault_keeps hI hp _ _ ⟨bus', host, stats⟩ _ _ _ hkept' hr
  | (.ok true, bus'), hr, hkept' =>
      cases hr
      exact hkept'
  | (.ok false, bus'), hr, hkept' =>
      cases hr
      exact hkept'

theorem divide_keeps (hI : Durable R I) (hp : p.Confined R) (w : Width) (signed : Bool) (divisor : UInt32) :
    HelperCall.Keeps (divide p w signed divisor) (Keeps I log code) := by
  rintro cpu ⟨bus, host, stats⟩ r cpu' env' hkept hr
  unfold divide at hr
  cases hdiv : cpu.divide w signed divisor with
  | some cpu₁ =>
      simp only [hdiv] at hr
      cases hr
      exact hkept
  | none =>
      simp only [hdiv] at hr
      have hreach := hp.raiseException divideError none ⟨cpu, bus, host⟩
      cases hr
      exact hI.reaches hkept hreach

theorem interpret_keeps (hI : Durable R I) (hp : p.Confined R) (nextEip : UInt32) (running : Option BlockId) :
    HelperCall.Keeps (interpret p nextEip running) (Keeps I log code) := by
  rintro cpu ⟨bus, host, stats⟩ r cpu' env' hkept hr
  unfold interpret at hr
  dsimp only at hr
  cases hrun : p.runNormal ⟨{ cpu with cycles := 1 }, bus, host⟩ with
  | error abort =>
      simp only [hrun] at hr
      cases hr
  | ok out =>
      obtain ⟨exit, cpu₁, bus₁, host₁⟩ := out
      have hkept' := hI.reaches hkept (hp.runNormal _ hrun)
      simp only [hrun] at hr
      cases running with
      | none =>
          dsimp only at hr
          split at hr <;> cases hr <;> exact hkept'
      | some id =>
          dsimp only at hr
          split at hr
          · cases hr
          · split at hr <;> cases hr <;> exact hkept'

theorem iret_keeps (hI : Durable R I) (hp : p.Confined R) (w : Width) :
    HelperCall.Keeps (iret p w) (Keeps I log code) := by
  intro cpu env r cpu' env' hkept hr
  unfold iret at hr
  cases hpop : popValues cpu env.bus.mem w 3 (cpu.reg cpu.stackReg) with
  | error fault =>
      simp only [hpop] at hr
      exact pageFault_keeps hI hp _ _ _ _ _ _ hkept hr
  | ok out =>
      simp only [hpop] at hr
      cases hr
      exact hkept

theorem helpers_keeps (hI : Durable R I) (hp : p.Confined R) : (helpers p).Keeps (Keeps I log code) :=
  ⟨load_keeps hI hp, store_keeps hI hp, divide_keeps hI hp, interpret_keeps hI hp, iret_keeps hI hp⟩

end BlockEnv

end Recompiler
