import Recompiler.Interpreter
import Recompiler.Proofs.Compile.Operands
import Recompiler.Proofs.Dispatch.Arena
import Recompiler.Proofs.Dispatch.CheckedStores
import Recompiler.Proofs.Guest.Arithmetic
import Recompiler.Proofs.Guest.Shapes

/-! Instructions that work on memory in place. If the store of the result does not go through, registers are as they were
and the instruction pointer is that of the instruction, but the status flags are already those of the result. Interpreting
the instruction once more makes up for that, unless it reads a carry that has changed. -/

namespace Recompiler

open MicroOp

/-! ### Instructions that work in place -/

namespace Kind

/-- Where an instruction works on memory in place, and what it makes of the value there, its other operand and the flags:
a result and new flags. -/
def inPlace? : Kind → Option (Address × (Width → (value operand eflags : UInt32) → UInt32 × UInt32))
  | .alu op (.mem a) _ => if op.writesResult then some (a, Arithmetic.alu op) else none
  | .unary op (.mem a) => some (a, fun w value _ eflags => Arithmetic.unary op w value eflags)
  | _ => none

/-- Whether an instruction reads the carry to compute. -/
def readsCarry : Kind → Bool
  | .alu op .. => op.readsCarry
  | _ => false

/-- The other operand of an instruction that works in place. -/
def operand (w : Width) (c : Cpu) : Kind → UInt32
  | .alu _ _ (.reg r) => c.reg r
  | .alu _ _ (.imm i) => i.value &&& w.mask
  | _ => 0

variable {k : Kind} {a : Address} {compute : Width → (value operand eflags : UInt32) → UInt32 × UInt32}

theorem inPlace?_cases (h : k.inPlace? = some (a, compute)) :
    (∃ op src, k = .alu op (.mem a) src ∧ op.writesResult = true ∧ compute = Arithmetic.alu op) ∨
      ∃ op, k = .unary op (.mem a) ∧ compute = fun w value _ eflags => Arithmetic.unary op w value eflags := by
  unfold inPlace? at h
  split at h
  · rename_i op b src
    split at h
    · rename_i hop
      cases h
      exact .inl ⟨op, src, rfl, hop, rfl⟩
    · cases h
  · rename_i op b
    cases h
    exact .inr ⟨op, rfl, rfl⟩
  · cases h

theorem flags_inPlace (h : k.inPlace? = some (a, compute)) (w : Width) (value operand e : UInt32) :
    (compute w value operand e).2 &&& ~~~Flag.status = e &&& ~~~Flag.status := by
  obtain ⟨op, src, -, -, rfl⟩ | ⟨op, -, rfl⟩ := inPlace?_cases h
  · exact Arithmetic.alu_flags ..
  · exact Arithmetic.unary_flags ..

/-- Computing once more after the flags were set gives what computing gave, if the carry is as it was or is not read. -/
theorem inPlace_again (h : k.inPlace? = some (a, compute)) {w : Width} {value operand e : UInt32}
    (hcarry : k.readsCarry = true → (compute w value operand e).2 &&& Flag.cf = e &&& Flag.cf) (w' : Width)
    (value' operand' : UInt32) : compute w' value' operand' (compute w value operand e).2 = compute w' value' operand' e := by
  obtain ⟨op, src, rfl, -, rfl⟩ | ⟨op, -, rfl⟩ := inPlace?_cases h
  · exact Arithmetic.alu_congr hcarry (Arithmetic.alu_flags ..) ..
  · exact Arithmetic.unary_unary ..

end Kind

namespace Interpreter

variable {κ : Type} {α β : Type}

namespace Exec

variable {x : Exec κ α} {f : α → Exec κ β} {c : Cpu} {bus : Bus κ}

theorem run_bind (x : Exec κ α) (f : α → Exec κ β) (st : Cpu × Bus κ) :
    (x >>= f).run st = match x.run st with
      | (.ok a, st') => (f a).run st'
      | (.error t, st') => (.error t, st') := by
  change ExceptT.bindCont f (x st).1 (x st).2 = _
  rw [ExceptT.run]
  rcases x st with ⟨a | t, st'⟩ <;> rfl

theorem run_cpu_bind (f : Cpu → Exec κ β) : (cpu >>= f).run (c, bus) = (f c).run (c, bus) := by
  rw [run_bind]
  rfl

theorem run_read_reg (r : Reg) (w : Width) : (read (.reg r) w : Exec κ UInt32).run (c, bus) = (.ok (c.reg r), c, bus) := rfl

theorem run_read_imm (imm : Imm) (w : Width) : (read (.imm imm) w : Exec κ UInt32).run (c, bus) = (.ok (imm.value &&& w.mask), c, bus) :=
  rfl

theorem run_read_mem (a : Address) (w : Width) :
    (read (.mem a) w : Exec κ UInt32).run (c, bus) = match bus.mem.loadLinear (c.linear a) w with
      | .ok value => (.ok value, c, bus)
      | .error fault => (.error (.page fault), c, bus) := rfl

theorem run_write_mem [Watcher κ] (a : Address) (w : Width) (value : UInt32) :
    (write (.mem a) w value : Exec κ Unit).run (c, bus) = match bus.write (c.linear a) w value with
      | (none, bus') => (.ok (), c, bus')
      | (some fault, bus') => (.error (.page fault), c, bus') := rfl

end Exec

variable [Watcher κ] {i : Instruction} {a : Address} {compute : Width → (value operand eflags : UInt32) → UInt32 × UInt32}

/-- The interpreter sets the flags after the store. -/
theorem execute_inPlace (hregular : i.kind.Regular) (hkind : i.kind.inPlace? = some (a, compute)) (first : UInt8) (c : Cpu)
    (bus : Bus κ) :
    (execute first i).run (c, bus) = match bus.mem.loadLinear (c.linear a) i.width with
      | .error fault => (.error (.page fault), c, bus)
      | .ok value =>
        let r := compute i.width value (Kind.operand i.width c i.kind) c.eflags
        match bus.write (c.linear a) i.width r.1 with
        | (some fault, bus') => (.error (.page fault), c, bus')
        | (none, bus') => (.ok .next, { c with eflags := r.2, eip := i.nextIp c.codeBig }, bus') := by
  have hstore (r : UInt32 × UInt32) :
      (do
        Exec.write (.mem a) i.width r.1
        Exec.modifyCpu fun c' => { c' with eflags := r.2, eip := i.nextIp c.codeBig }
        pure .next : Exec κ Outcome).run (c, bus) = match bus.write (c.linear a) i.width r.1 with
          | (some fault, bus') => (.error (.page fault), c, bus')
          | (none, bus') => (.ok .next, { c with eflags := r.2, eip := i.nextIp c.codeBig }, bus') := by
    rw [Exec.run_bind, Exec.run_write_mem]
    rcases bus.write (c.linear a) i.width r.1 with ⟨_ | fault, bus'⟩ <;> rfl
  obtain ⟨op, src, hk, hop, rfl⟩ | ⟨op, hk, rfl⟩ := Kind.inPlace?_cases hkind
  · unfold execute
    simp only [hk, hop, Exec.run_cpu_bind, if_true]
    rw [Exec.run_bind, Exec.run_read_mem]
    cases bus.mem.loadLinear (c.linear a) i.width with
    | error fault => rfl
    | ok value =>
        rw [hk] at hregular
        cases src with
        | mem b => exact absurd rfl (hregular.2 a b rfl)
        | reg r =>
            dsimp only
            rw [Exec.run_bind, Exec.run_read_reg]
            exact hstore (Arithmetic.alu op i.width value (c.reg r) c.eflags)
        | imm imm =>
            dsimp only
            rw [Exec.run_bind, Exec.run_read_imm]
            exact hstore (Arithmetic.alu op i.width value (imm.value &&& i.width.mask) c.eflags)
  · unfold execute
    simp only [hk, Exec.run_cpu_bind]
    rw [Exec.run_bind, Exec.run_read_mem]
    cases bus.mem.loadLinear (c.linear a) i.width with
    | error fault => rfl
    | ok value => exact hstore (Arithmetic.unary op i.width value c.eflags)

/-- What completes does so as before if only flags changed that make no difference to the result. -/
theorem execute_inPlace_congr (hregular : i.kind.Regular) (hkind : i.kind.inPlace? = some (a, compute)) {c : Cpu} {eflags : UInt32}
    (hsame : ∀ w value operand, compute w value operand eflags = compute w value operand c.eflags) {first : UInt8} {bus : Bus κ}
    {outcome : Outcome} {st : Cpu × Bus κ} (h : (execute first i).run (c, bus) = (.ok outcome, st)) :
    (execute first i).run ({ c with eflags }, bus) = (.ok outcome, st) := by
  have hoperand : Kind.operand i.width { c with eflags } i.kind = Kind.operand i.width c i.kind := rfl
  rw [execute_inPlace hregular hkind] at h ⊢
  change (match bus.mem.loadLinear (c.linear a) i.width with | .error fault => _ | .ok value => _) = _
  cases hload : bus.mem.loadLinear (c.linear a) i.width with
  | error fault =>
      rw [hload] at h
      cases h
  | ok value =>
      rw [hload] at h
      dsimp only at h ⊢
      rw [hsame, hoperand]
      generalize compute i.width value (Kind.operand i.width c i.kind) c.eflags = r at h ⊢
      change (match bus.write (c.linear a) i.width r.1 with | (some fault, bus') => _ | (none, bus') => _) = _
      generalize bus.write (c.linear a) i.width r.1 = written at h ⊢
      obtain ⟨_ | fault, bus'⟩ := written
      · exact h
      · cases h

end Interpreter

namespace Lowering

variable {σ : Type} {p : Platform σ} {whole rest : List MicroOp} {s : Activation (BlockEnv σ)} {d : Departure (BlockEnv σ)}
  {f : Fetched} {a : Address} {compute : Width → (value operand eflags : UInt32) → UInt32 × UInt32}

/-- The other operand of an instruction that works in place, as its compiled code finds it. -/
def otherOperand (p : Platform σ) (f : Fetched) (s : Activation (BlockEnv σ)) : UInt32 :=
  match f.inst.kind with
  | .alu _ _ src => operandValue (BlockEnv.helpers p) f.hotImm src f.inst.width s.cpu s.env
  | _ => 0

/-- An instruction that works in place comes to its store with the flags set already. -/
theorem performs_inPlace (p : Platform σ) (hregular : f.inst.kind.Regular) (hkind : f.inst.kind.inPlace? = some (a, compute))
    (ctx : LoweringContext) (count : Nat) {value : UInt32} (hload : s.env.bus.mem.loadLinear (s.cpu.linear a) f.inst.width = .ok value)
    (whole rest : List MicroOp) :
    ∃ temps,
      let r := compute f.inst.width value (otherOperand p f s) s.cpu.eflags
      let s' : Activation (BlockEnv σ) := { s with cpu := { s.cpu with eip := f.inst.ip, eflags := r.2 }, temps }
      s'.get .t2 = s.cpu.linear a ∧ s'.get .t0 = r.1 ∧
        ∀ d, Performs (BlockEnv.helpers p) whole (instruction ctx count f ++ rest) s d ↔
          Performs (BlockEnv.helpers p) whole (.act (.store .t2 .t0 f.inst.width) :: rest) s' d := by
  have hdeparture : departure ctx count f = [] := by
    obtain ⟨op, src, hk, -⟩ | ⟨op, hk, -⟩ := Kind.inPlace?_cases hkind <;> simp [departure, hk]
  obtain ⟨op, src, hk, hop, rfl⟩ | ⟨op, hk, rfl⟩ := Kind.inPlace?_cases hkind
  · have hsrc : ∀ b, src ≠ .mem b := by
      rw [hk] at hregular
      exact fun b => hregular.2 a b rfl
    have hactions : actions ctx f = address a .t2 ++ ([.load .t0 .t2 f.inst.width] ++ (read f.hotImm src f.inst.width .t1 .t2 ++
        [.alu op f.inst.width .t0 .t1, .store .t2 .t0 f.inst.width])) := by
      simp [actions, hk, hop, read, write]
    let b := s.atEip f.inst.ip
    let operand := operandValue (BlockEnv.helpers p) f.hotImm src f.inst.width s.cpu s.env
    have hoperand : otherOperand p f s = operand := by rw [otherOperand, hk]
    let r := Arithmetic.alu op f.inst.width value operand s.cpu.eflags
    let t := (((b.put .t2 (s.cpu.linear a)).put .t0 value).put .t1 operand).put .t0 r.1
    have haddr : t.get .t2 = s.cpu.linear a := by simp [t]
    have hvalue : t.get .t0 = r.1 := by simp [t]
    rw [hoperand]
    refine ⟨t.temps, haddr, hvalue, fun d => ?_⟩
    rw [performs_instruction, hdeparture, hactions, commence_of_calls (by rw [hactions]; simp [Action.callsHelper])]
    simp only [List.map_append, List.map_cons, List.map_nil, List.append_assoc, List.cons_append, List.nil_append]
    rw [performs_address, performs_load_of_ok p (by simpa using hload), performs_read hsrc, performs_alu hop]
    simp only [Activation.get_put, if_true, reduceCtorEq, if_false]
    cases src with
    | mem b => exact absurd rfl (hsrc b)
    | reg | imm => exact Iff.rfl
  · have hactions : actions ctx f = address a .t2 ++ ([.load .t0 .t2 f.inst.width] ++
        [.unary op f.inst.width .t0, .store .t2 .t0 f.inst.width]) := by
      simp [actions, hk, read, write]
    let b := s.atEip f.inst.ip
    let r := Arithmetic.unary op f.inst.width value s.cpu.eflags
    let t := ((b.put .t2 (s.cpu.linear a)).put .t0 value).put .t0 r.1
    have haddr : t.get .t2 = s.cpu.linear a := by simp [t]
    have hvalue : t.get .t0 = r.1 := by simp [t]
    refine ⟨t.temps, haddr, hvalue, fun d => ?_⟩
    rw [performs_instruction, hdeparture, hactions, commence_of_calls (by rw [hactions]; simp [Action.callsHelper])]
    simp only [List.map_append, List.map_cons, List.map_nil, List.append_assoc, List.cons_append, List.nil_append]
    rw [performs_address, performs_load_of_ok p (by simpa using hload), performs_unary]
    simp only [Activation.get_put, if_true]
    exact Iff.rfl

/-- A compiled instruction that works on memory in place and whose store does not go through leaves with registers as they
were, at its own instruction pointer and before the platform has seen a fault. The status flags are those of the result by
then; the others are as they were. Memory is as it was, except for bytes in front of the one that hit the running block, if
the store goes to two pages. Running the instruction from there gives what it gives from the start, provided that it does not
read the carry or that the carry is as it was. -/
theorem inPlace_restarts {bytes : List UInt8} {ip : UInt32} {code32 : Bool} (hdecode : decode bytes ip code32 = .ok f.inst)
    (hkind : f.inst.kind.inPlace? = some (a, compute)) {ctx : LoweringContext} {count : Nat} {value : UInt32}
    (hload : s.env.bus.mem.loadLinear (s.cpu.linear a) f.inst.width = .ok value)
    (hperf : Performs (BlockEnv.helpers p) whole (instruction ctx count f ++ rest) s d) :
    ∃ temps,
      let r := compute f.inst.width value (otherOperand p f s) s.cpu.eflags
      let s' : Activation (BlockEnv σ) := { s with cpu := { s.cpu with eip := f.inst.ip, eflags := r.2 }, temps }
      (match BlockEnv.storeLinear (s.cpu.linear a) f.inst.width r.1 s.runningBlock s.env.bus with
        | (.ok false, bus) => Performs (BlockEnv.helpers p) whole rest { s' with env := { s.env with bus } } d
        | (.ok true, bus) =>
          d = .exit .smcBlock { s' with env := ⟨bus, s.env.host, { s.env.stats with smcExits := s.env.stats.smcExits + 1 }⟩ } ∧
            (fitsInPage (s.cpu.linear a) f.inst.width = true → bus.mem = s.env.bus.mem)
        | (.error fault, bus) => d = .exit .normal (faulted p fault s') ∧ bus = s.env.bus) ∧
      r.2 &&& ~~~Flag.status = s.cpu.eflags &&& ~~~Flag.status ∧
      ((f.inst.kind.readsCarry = true → r.2 &&& Flag.cf = s.cpu.eflags &&& Flag.cf) →
        ∀ {κ : Type} [Watcher κ] (first : UInt8) (bus : Bus κ) (outcome : Interpreter.Outcome) (st : Cpu × Bus κ),
          (Interpreter.execute first f.inst).run ({ s.cpu with eip := f.inst.ip }, bus) = (.ok outcome, st) →
          (Interpreter.execute first f.inst).run (s'.cpu, bus) = (.ok outcome, st)) := by
  have hregular := decode_regular hdecode
  obtain ⟨temps, haddr, hvalue, hiff⟩ := performs_inPlace p hregular hkind ctx count hload whole rest
  have hstore := (performs_store p ..).1 ((hiff d).1 hperf)
  rw [haddr, hvalue] at hstore
  refine ⟨temps, ?_, Kind.flags_inPlace hkind .., fun hcarry κ _ first bus outcome st hrun =>
    Interpreter.execute_inPlace_congr (c := { s.cpu with eip := f.inst.ip }) hregular hkind (Kind.inPlace_again hkind hcarry) hrun⟩
  dsimp only at hstore ⊢
  change match BlockEnv.storeLinear (s.cpu.linear a) f.inst.width (compute f.inst.width value (otherOperand p f s) s.cpu.eflags).1
    s.runningBlock s.env.bus with | (.ok false, bus) => _ | (.ok true, bus) => _ | (.error fault, bus) => _ at hstore
  generalize hout : BlockEnv.storeLinear (s.cpu.linear a) f.inst.width
    (compute f.inst.width value (otherOperand p f s) s.cpu.eflags).1 s.runningBlock s.env.bus = out at hstore ⊢
  match out, hout, hstore with
  | (.ok false, bus), _, hstore => exact hstore
  | (.ok true, bus), hout, hstore =>
      refine ⟨hstore, fun hfit => ?_⟩
      obtain ⟨n, -, hn, hmem⟩ := BlockEnv.storeLinear_hit hout
      rw [hmem, hn hfit]
      rfl
  | (.error fault, bus), hout, hstore =>
      obtain rfl := BlockEnv.storeLinear_fault hout
      exact ⟨hstore, rfl⟩

/-! ### An addition with carry to its own code -/

/-- `adc byte [ebx], al` and a jump back to it, at the start of the page. -/
def adcLoop : Memory :=
  Machine.onePage 0 [0x10, 0x03, 0xEB, 0xFC]

/-- The addition is to its own first byte, and carries. -/
def adcCpu : Cpu :=
  { Cpu.flat32 with regs := #v[0xFF, 0, 0, 0, 0, 0, 0, 0], cycles := 10 }

def adcBlock : Compilation :=
  Machine.scantCompilation adcLoop adcCpu 0

def adcAddress : Address where
  seg := .ds
  base := some .ebx
  index := none
  scale := 1
  disp := 0
  addr16 := false

def adcFetched : Fetched where
  inst := { ip := 0, len := 2, width := .w8, kind := .alu .adc (.mem adcAddress) (.reg ⟨.eax, .w8, false⟩) }
  hotImm := none

theorem decode_adcFetched : decode [0x10, 0x03] 0 true = .ok adcFetched.inst := by
  decide +kernel

def adcContext : LoweringContext :=
  Compile.context adcCpu 0

/-- The micro-operations of the jump. -/
def jumpBack : List MicroOp :=
  [.act (.subCycles 2), .act (.setEip 0), .link 0 (HostCode.linkEntryAddr 0 .first).toUInt64]

theorem ops_adcBlock : adcBlock.ops = .act (.enter 0) :: (instruction adcContext 0 adcFetched ++ jumpBack) := by
  decide +kernel

/-- The pass through the block, when the addition begins. -/
def adcStart (c : Cache) : Activation (BlockEnv Interpreter) where
  cpu := adcCpu
  env := ⟨⟨adcLoop, c⟩, {}, { compilations := 1, blockRuns := 1 }⟩
  running := 0

/-- The pass when the store of the sum has hit the block. -/
def adcEnd (bus : Bus Cache) (temps : Vector UInt32 3) : Activation (BlockEnv Interpreter) where
  cpu := { adcCpu with eflags := (Arithmetic.alu .adc .w8 0x10 0xFF 2).2 }
  env := ⟨bus, {}, { compilations := 1, blockRuns := 1, smcExits := 1 }⟩
  temps := temps
  running := 0

/-- The machine with the block in its cache. -/
def adcMachine (c : Cache) (code : HostCode) : Machine Interpreter :=
  ⟨⟨Machine.scantSettings, some ⟨c, code⟩, false, { compilations := 1 }⟩, adcCpu, adcLoop, {}⟩

/-- The block is compiled, and the store of the sum hits it. -/
theorem exists_adc_hit :
    ∃ c code bus, Machine.History .identity Interpreter.platform (adcMachine c code) [adcBlock] ∧ Housed [adcBlock] c code ∧
      code.emitter.backend = .portable ∧ code.base + code.arena.size < 2 ^ 64 ∧ c.Runnable 0 ∧
      BlockEnv.storeLinear 0 .w8 0x0F (some 0) ⟨adcLoop, c⟩ = (.ok true, bus) ∧ bus.mem = adcLoop := by
  obtain ⟨mem, c, code, -, hc, hmem, hhoused, hbackend, haddr, hhistory⟩ := Machine.exists_compiled_housed
    (show adcLoop.mapped = [] from rfl) (show adcLoop.resolve adcCpu.ipLinear false = .ok 0 by decide +kernel)
    (by decide +kernel) (by decide +kernel)
    (fun mem c _ => mem.released.isEmpty && (c.block 0).live && !(c.block 0).isCompanion && (c.monitor 0).installed &&
      (c.monitor 0).page == 0 && !PageFlag.has (c.monitor 0).flags PageFlag.rom && (c.noteStore 0 0 1 (some 0)).1) (by decide +kernel)
  simp only [Bool.and_eq_true, Bool.not_eq_true', beq_iff_eq, Array.isEmpty_iff] at hc
  obtain ⟨⟨⟨⟨⟨⟨hreleased, hlive⟩, hord⟩, hinst⟩, hpage⟩, hrom⟩, hhit⟩ := hc
  obtain rfl := Memory.eq_of_unreleased hmem hreleased
  have hmonitor : c.monitorOf 0 = some 0 := (hhoused.sound.watches.byPage 0 0).mpr ⟨hinst, hpage⟩
  refine ⟨c, code, ⟨adcLoop, (c.noteStore 0 0 1 (some 0)).2⟩, hhistory adcCpu, hhoused, hbackend, haddr, ⟨hlive, hord⟩, ?_, rfl⟩
  have hread : adcLoop.read 0 .w8 = 0x10 := by decide +kernel
  have hchanged : ¬(0x10 : UInt32) = 0x0F &&& Width.w8.mask := by decide
  have hresolve : adcLoop.resolve 0 true = .ok 0 := rfl
  have hpageOf : pageOf 0 = 0 := rfl
  have hoffset : pageOffset 0 = 0 := rfl
  simp [BlockEnv.storeLinear, Cache.writeChecked, hresolve, hpageOf, hoffset, hmonitor, hrom, hread, hchanged, Width.bytes, hhit]

theorem adcStart_spec (c : Cache) :
    (adcStart c).cpu.linear adcAddress = 0 ∧ otherOperand Interpreter.platform adcFetched (adcStart c) = 0xFF ∧
      (adcStart c).env.bus.mem.loadLinear ((adcStart c).cpu.linear adcAddress) adcFetched.inst.width = .ok 0x10 := by
  have hlinear : (adcStart c).cpu.linear adcAddress = 0 := (by decide : adcCpu.linear adcAddress = 0)
  refine ⟨hlinear, (by decide : adcCpu.reg ⟨.eax, .w8, false⟩ = 0xFF), ?_⟩
  rw [hlinear]
  exact (by decide +kernel : adcLoop.loadLinear 0 .w8 = .ok 0x10)

/-- The pass leaves at the addition, with the flags of the sum. -/
theorem exists_performs_adc {c : Cache} {bus : Bus Cache}
    (hhit : BlockEnv.storeLinear 0 .w8 0x0F (some 0) ⟨adcLoop, c⟩ = (.ok true, bus)) (whole : List MicroOp) :
    ∃ temps, Performs (BlockEnv.helpers Interpreter.platform) whole (instruction adcContext 0 adcFetched ++ jumpBack) (adcStart c)
      (.exit .smcBlock (adcEnd bus temps)) := by
  obtain ⟨hlinear, hoperand, hload⟩ := adcStart_spec c
  obtain ⟨temps, haddr, hvalue, hiff⟩ := performs_inPlace Interpreter.platform (decode_regular decode_adcFetched) rfl adcContext 0
    hload whole jumpBack
  rw [hoperand] at haddr hvalue hiff
  have hsum : (Arithmetic.alu .adc .w8 0x10 0xFF 2).1 = 0x0F := by decide
  refine ⟨temps, (hiff _).2 ((performs_store_of_hit _ ?_).2 rfl)⟩
  rw [haddr, hvalue, hlinear]
  exact hsum ▸ hhit

/-- The addition leaves memory and registers as they were, and the flags of the sum. -/
theorem inPlace_restarts_adc :
    ∃ c code d bus temps, Machine.History .identity Interpreter.platform (adcMachine c code) [adcBlock] ∧
      Performs (BlockEnv.helpers Interpreter.platform) adcBlock.ops (instruction adcContext 0 adcFetched ++ jumpBack) (adcStart c) d ∧
      d = .exit .smcBlock (adcEnd bus temps) ∧ bus.mem = adcLoop := by
  obtain ⟨c, code, bus, hhistory, -, -, -, -, hhit, -⟩ := exists_adc_hit
  obtain ⟨_, hperf⟩ := exists_performs_adc hhit adcBlock.ops
  obtain ⟨hlinear, hoperand, hload⟩ := adcStart_spec c
  obtain ⟨temps, hleaves, -⟩ := inPlace_restarts decode_adcFetched rfl hload hperf
  have hstore : BlockEnv.storeLinear ((adcStart c).cpu.linear adcAddress) adcFetched.inst.width
      (Arithmetic.alu .adc adcFetched.inst.width 0x10 0xFF (adcStart c).cpu.eflags).1 (adcStart c).runningBlock
      (adcStart c).env.bus = (.ok true, bus) := by
    have hsum : (Arithmetic.alu .adc .w8 0x10 0xFF 2).1 = 0x0F := by decide
    rw [hlinear]
    exact hsum ▸ hhit
  dsimp only at hleaves
  rw [hoperand, hstore] at hleaves
  exact ⟨c, code, _, bus, temps, hhistory, hperf, hleaves.1, hleaves.2 (by rw [hlinear]; rfl)⟩

theorem exists_of_step {g : Guest Unit Interpreter} (P : Guest Unit Interpreter → Bool)
    (h : (match Interpreter.step g with | .ok (.next, g') => P g' | _ => false) = true) :
    ∃ g', Interpreter.step g = .ok (.next, g') ∧ P g' = true := by
  split at h
  · exact ⟨_, ‹_›, h⟩
  · cases h

/-- The flags are not as they were, and interpreting the addition then carries once more: it gives `0x10` instead of `0x0F`. -/
theorem not_inPlace_restarts_adc :
    ∃ (m m' : Machine Interpreter) (log : List Compilation) (g g' : Guest Unit Interpreter),
      Machine.History .identity Interpreter.platform m log ∧
        (∃ fuel, m.executeBlock Interpreter.platform fuel 0 = .ok (.ok .smcBlock, m')) ∧
        m'.cpu.regs = m.cpu.regs ∧ m'.cpu.eip = m.cpu.eip ∧ m'.mem = m.mem ∧ m'.cpu.eflags ≠ m.cpu.eflags ∧
        Interpreter.step ⟨m.cpu, ⟨m.mem, ()⟩, m.host⟩ = .ok (.next, g) ∧
        Interpreter.step ⟨m'.cpu, ⟨m'.mem, ()⟩, m'.host⟩ = .ok (.next, g') ∧
        g.bus.mem.byte 0 = 0x0F ∧ g'.bus.mem.byte 0 = 0x10 := by
  obtain ⟨c, code, bus, hhistory, hhoused, hbackend, haddr, hrunnable, hhit, hmem⟩ := exists_adc_hit
  obtain ⟨temps, hperf⟩ := exists_performs_adc hhit adcBlock.ops
  have hpass : Performs (BlockEnv.helpers Interpreter.platform) adcBlock.ops adcBlock.ops
      { cpu := adcCpu, env := ⟨⟨adcLoop, c⟩, {}, { compilations := 1, blockRuns := 1 }⟩ } (.exit .smcBlock (adcEnd bus temps)) := by
    rw [ops_adcBlock] at hperf ⊢
    exact (performs_enter (by decide : ¬adcCpu.cycles ≤ 0) 0).2 hperf
  obtain ⟨k, hk, -⟩ := hhoused.stands hbackend haddr hrunnable
  obtain rfl := List.mem_singleton.mp (List.mem_of_find?_eq_some hk)
  obtain ⟨fuel, hfuel⟩ := hhoused.exists_enter hbackend haddr hrunnable hk { compilations := 1 } hpass false
  obtain ⟨g, hg, hbyte⟩ := exists_of_step (g := ⟨adcCpu, ⟨adcLoop, ()⟩, {}⟩) (fun g => g.bus.mem.byte 0 == 0x0F) (by decide +kernel)
  obtain ⟨g', hg', hbyte'⟩ := exists_of_step
    (g := ⟨{ adcCpu with eflags := (Arithmetic.alu .adc .w8 0x10 0xFF 2).2 }, ⟨adcLoop, ()⟩, {}⟩)
    (fun g => g.bus.mem.byte 0 == 0x10) (by decide +kernel)
  let s := adcEnd bus temps
  refine ⟨adcMachine c code, ⟨⟨Machine.scantSettings, some ⟨bus.watch, code⟩, false, s.env.stats⟩, s.cpu, bus.mem, {}⟩, _, g, g',
    hhistory, ⟨fuel, ?_⟩, rfl, rfl, hmem, (by decide : (Arithmetic.alu .adc .w8 0x10 0xFF 2).2 ≠ 2), hg, ?_, beq_iff_eq.mp hbyte, beq_iff_eq.mp hbyte'⟩
  · simp only [adcMachine, Machine.executeBlock, hfuel]
    rfl
  · rw [← hmem] at hg'
    exact hg'

end Lowering

end Recompiler
