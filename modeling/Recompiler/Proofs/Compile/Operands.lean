import Recompiler.Dispatch.BlockEnv
import Recompiler.Proofs.Compile.Lowered

/-! What the micro-operations of operands do. An action that cannot fail takes a pass through a block one step further, so
that the actions for an operand are followed one by one; only loads and stores can make the pass leave. The instruction
pointer that is set before the first helper call may as well be set at the start of the instruction. -/

namespace Recompiler

open MicroOp

theorem Tmp.index_lt (t : Tmp) : t.index.val < 3 := t.index.isLt

namespace Activation

variable {ε : Type} (s : Activation ε)

/-- The value of a temporary. -/
def get (t : Tmp) : UInt32 :=
  s.temps.get t.index

/-- A value put into a temporary. -/
def put (t : Tmp) (value : UInt32) : Activation ε :=
  { s with temps := s.temps.set t.index.val value t.index_lt }

/-- The processor changed. -/
def withCpu (cpu : Cpu) : Activation ε :=
  { s with cpu }

/-- The run at an instruction pointer. -/
def atEip (eip : UInt32) : Activation ε :=
  s.withCpu { s.cpu with eip }

@[simp] theorem get_put (t t' : Tmp) (value : UInt32) : (s.put t value).get t' = if t = t' then value else s.get t' := by
  cases t <;> cases t' <;> simp [get, put, Tmp.index, Vector.get_eq_getElem]

@[simp] theorem get_withCpu (t : Tmp) (cpu : Cpu) : (s.withCpu cpu).get t = s.get t := rfl

theorem put_get (t : Tmp) : s.put t (s.get t) = s := by
  have htemps : s.temps.set t.index.val (s.get t) t.index_lt = s.temps := Vector.set_getElem_self _
  rw [put, htemps]

@[simp] theorem put_put (t : Tmp) (value value' : UInt32) : (s.put t value).put t value' = s.put t value' := by
  simp [put]

@[simp] theorem cpu_put (t : Tmp) (value : UInt32) : (s.put t value).cpu = s.cpu := rfl

@[simp] theorem env_put (t : Tmp) (value : UInt32) : (s.put t value).env = s.env := rfl

@[simp] theorem runningBlock_put (t : Tmp) (value : UInt32) : (s.put t value).runningBlock = s.runningBlock := rfl

@[simp] theorem cpu_withCpu (cpu : Cpu) : (s.withCpu cpu).cpu = cpu := rfl

@[simp] theorem env_withCpu (cpu : Cpu) : (s.withCpu cpu).env = s.env := rfl

@[simp] theorem runningBlock_withCpu (cpu : Cpu) : (s.withCpu cpu).runningBlock = s.runningBlock := rfl

@[simp] theorem put_withCpu (t : Tmp) (value : UInt32) (cpu : Cpu) : (s.withCpu cpu).put t value = (s.put t value).withCpu cpu := rfl

@[simp] theorem withCpu_withCpu (cpu cpu' : Cpu) : (s.withCpu cpu).withCpu cpu' = s.withCpu cpu' := rfl

@[simp] theorem env_atEip (eip : UInt32) : (s.atEip eip).env = s.env := rfl

@[simp] theorem linear_atEip (eip : UInt32) (a : Address) : (s.atEip eip).cpu.linear a = s.cpu.linear a := rfl

end Activation

namespace MicroOp.Performs

variable {ε : Type} {h : Helpers ε} {whole rest : List MicroOp} {a : Action} {s s' : Activation ε} {d : Departure ε}

/-- An action that is completed takes the pass to the next operation. -/
theorem act_iff (hact : a.perform h s = .ok (none, s')) : Performs h whole (.act a :: rest) s d ↔ Performs h whole rest s' d := by
  refine ⟨fun hperf => ?_, .step hact⟩
  cases hperf with
  | step hact' hrest =>
      rw [hact] at hact'
      cases hact'
      exact hrest
  | leave hact' =>
      rw [hact] at hact'
      cases hact'
  | abort hact' =>
      rw [hact] at hact'
      cases hact'

/-- An action that tells the block to leave ends the pass. -/
theorem exit_iff {code : ExitCode} (hact : a.perform h s = .ok (some code, s')) :
    Performs h whole (.act a :: rest) s d ↔ d = .exit code s' := by
  refine ⟨fun hperf => ?_, fun hd => hd ▸ .leave hact⟩
  cases hperf with
  | step hact' _ =>
      rw [hact] at hact'
      cases hact'
  | leave hact' =>
      rw [hact] at hact'
      cases hact'
      rfl
  | abort hact' =>
      rw [hact] at hact'
      cases hact'

end MicroOp.Performs

/-- Actions that have nothing to do with the instruction pointer and cannot make a block leave. -/
def Action.blind : Action → Bool
  | loadImm .. | loadReg .. | storeReg .. | mov .. | addImm .. | andImm .. | lea .. | addSegBase .. | alu .. | unary .. => true
  | _ => false

theorem Action.perform_blind {ε : Type} {a : Action} (ha : a.blind = true) (h : Helpers ε) (s : Activation ε) :
    ∃ s', ∀ eip, a.perform h s = .ok (none, s') ∧ a.perform h (s.atEip eip) = .ok (none, s'.atEip eip) := by
  cases a <;> first | cases ha; done | exact ⟨_, fun _ => ⟨rfl, rfl⟩⟩

namespace Lowering

variable {ε : Type} {h : Helpers ε} {whole rest : List MicroOp} {s : Activation ε} {d : Departure ε} {ip : UInt32} {as : List Action}

/-- Where a helper is called, the instruction pointer can be set first of all. -/
theorem performs_publishActions (hcalls : as.any Action.callsHelper = true)
    (hblind : ∀ a ∈ as.takeWhile fun a => !a.callsHelper, a.blind = true) :
    Performs h whole ((publishActions ip as).map .act ++ rest) s d ↔ Performs h whole (as.map .act ++ rest) (s.atEip ip) d := by
  induction as generalizing s with
  | nil => cases hcalls
  | cons a as ih =>
      rw [publishActions]
      by_cases ha : a.callsHelper = true
      · rw [if_pos ha]
        exact Performs.act_iff rfl
      · rw [if_neg ha]
        rw [List.any_cons, Bool.eq_false_iff.2 ha, Bool.false_or] at hcalls
        rw [List.takeWhile_cons_of_pos (by simpa using ha)] at hblind
        obtain ⟨s', hs'⟩ := Action.perform_blind (hblind a List.mem_cons_self) h s
        refine (Performs.act_iff (hs' ip).1).trans (Iff.trans ?_ (Performs.act_iff (hs' ip).2).symm)
        exact ih hcalls fun b hb => hblind b (List.mem_cons_of_mem _ hb)

theorem publishActions_of_quiet (h : as.any Action.callsHelper = false) : publishActions ip as = as := by
  induction as with
  | nil => rfl
  | cons a as ih =>
      rw [List.any_cons, Bool.or_eq_false_iff] at h
      rw [publishActions, if_neg (by rw [h.1]; decide), ih h.2]

/-- Actions that either call a helper or have nothing to do with the instruction pointer. -/
def Discreet (as : List Action) : Prop :=
  ∀ a ∈ as, a.callsHelper = false → a.blind = true

theorem Discreet.append {bs : List Action} (ha : Discreet as) (hb : Discreet bs) : Discreet (as ++ bs) := fun a h =>
  (List.mem_append.1 h).elim (ha a) (hb a)

theorem Discreet.cons {a : Action} (ha : a.callsHelper = false → a.blind = true) (has : Discreet as) : Discreet (a :: as) := fun b h =>
  (List.mem_cons.1 h).elim (fun hb => hb ▸ ha) (has b)

theorem Discreet.nil : Discreet [] := fun _ h => by cases h

theorem discreet_address (a : Address) (t : Tmp) : Discreet (address a t) :=
  .cons (fun _ => rfl) (.cons (fun _ => rfl) .nil)

theorem discreet_read (hotImm : Option UInt32) (op : Operand) (w : Width) (dst tmp : Tmp) : Discreet (read hotImm op w dst tmp) := by
  cases op with
  | reg r => exact .cons (fun _ => rfl) .nil
  | mem a => exact (discreet_address a tmp).append (.cons (fun h => by cases h) .nil)
  | imm i =>
      cases hotImm with
      | none => exact .cons (fun _ => rfl) .nil
      | some paddr => exact .cons (fun h => by cases h) .nil

theorem discreet_write (op : Operand) (w : Width) (src tmp : Tmp) : Discreet (write op w src tmp) := by
  cases op with
  | reg r => exact .cons (fun _ => rfl) .nil
  | mem a => exact .cons (fun h => by cases h) .nil
  | imm i => exact .nil

theorem discreet_wrapStack (ctx : LoweringContext) (t : Tmp) : Discreet (wrapStack ctx t) := by
  unfold wrapStack
  split
  · exact .nil
  · exact .cons (fun _ => rfl) .nil

theorem discreet_push (ctx : LoweringContext) (w : Width) : Discreet (push ctx w) := by
  refine ((Discreet.append ?_ (discreet_wrapStack ctx .t2)).append ?_)
  · exact .cons (fun _ => rfl) (.cons (fun _ => rfl) .nil)
  · exact .cons (fun _ => rfl) (.cons (fun _ => rfl) (.cons (fun h => by cases h) (.cons (fun _ => rfl) .nil)))

theorem discreet_pop (ctx : LoweringContext) (w : Width) (extra : UInt32) : Discreet (pop ctx w extra) := by
  refine ((Discreet.append ?_ (discreet_wrapStack ctx .t2)).append (.cons (fun _ => rfl) .nil))
  exact .cons (fun _ => rfl) (.cons (fun _ => rfl) (.cons (fun _ => rfl) (.cons (fun h => by cases h) (.cons (fun _ => rfl) .nil))))

theorem Discreet.takeWhile (h : Discreet as) : ∀ a ∈ as.takeWhile fun a => !a.callsHelper, a.blind = true := fun a ha =>
  h a ((List.takeWhile_prefix _).subset ha) (by simpa using List.mem_takeWhile_imp ha)

/-- Apart from a return, which loads the instruction pointer last, an instruction leaves the instruction pointer to helpers. -/
theorem discreet_actions (ctx : LoweringContext) {f : Fetched} (hret : ∀ extra, f.inst.kind ≠ .ret extra) : Discreet (actions ctx f) := by
  unfold actions
  dsimp only
  cases hkind : f.inst.kind with
  | mov dst src =>
      refine ((?_ : Discreet _).append (discreet_read _ _ _ _ _)).append (discreet_write _ _ _ _)
      cases dst with
      | mem a => exact discreet_address a .t2
      | reg r => exact .nil
      | imm i => exact .nil
  | alu op dst src =>
      refine (((discreet_read _ _ _ _ _).append (discreet_read _ _ _ _ _)).append (.cons (fun _ => rfl) .nil)).append ?_
      split
      · exact discreet_write _ _ _ _
      · exact .nil
  | unary op dst => exact ((discreet_read _ _ _ _ _).append (.cons (fun _ => rfl) .nil)).append (discreet_write _ _ _ _)
  | lea dst addr => exact .cons (fun _ => rfl) (.cons (fun _ => rfl) .nil)
  | push src => exact (discreet_read _ _ _ _ _).append (discreet_push _ _)
  | pop dst => exact (discreet_pop _ _ _).append (.cons (fun _ => rfl) .nil)
  | call target => exact .cons (fun _ => rfl) (discreet_push _ _)
  | ret extra => exact absurd hkind (hret extra)
  | div signed src => exact (discreet_read _ _ _ _ _).append (.cons (fun h => by cases h) .nil)
  | iret =>
      dsimp only
      split
      · exact .nil
      · exact .cons (fun h => by cases h) .nil
  | fpu => exact .cons (fun h => by cases h) .nil
  | _ => exact .nil

/-- Until an instruction calls a helper it does nothing to the instruction pointer. -/
theorem blind_actions (ctx : LoweringContext) (f : Fetched) :
    ∀ a ∈ (actions ctx f).takeWhile fun a => !a.callsHelper, a.blind = true := by
  by_cases hret : ∃ extra, f.inst.kind = .ret extra
  · obtain ⟨extra, hkind⟩ := hret
    intro a ha
    simp [actions, hkind, pop, Action.callsHelper] at ha
    rcases ha with rfl | rfl | rfl <;> rfl
  · exact (discreet_actions ctx fun extra hkind => hret ⟨extra, hkind⟩).takeWhile

/-- The run of host code in which an instruction can be taken to begin: with the instruction pointer set, if it calls a
helper. -/
def commence (ctx : LoweringContext) (f : Fetched) (s : Activation ε) : Activation ε :=
  if (actions ctx f).any Action.callsHelper then s.atEip f.inst.ip else s

theorem commence_of_calls {ctx : LoweringContext} {f : Fetched} (hcalls : (actions ctx f).any Action.callsHelper = true)
    (s : Activation ε) : commence ctx f s = s.atEip f.inst.ip :=
  if_pos hcalls

/-- The instruction pointer may as well be set at the start of an instruction. -/
theorem performs_published (ctx : LoweringContext) (f : Fetched) :
    Performs h whole ((publishActions f.inst.ip (actions ctx f)).map .act ++ rest) s d ↔
      Performs h whole ((actions ctx f).map .act ++ rest) (commence ctx f s) d := by
  rw [commence]
  by_cases hcalls : (actions ctx f).any Action.callsHelper = true
  · rw [if_pos hcalls]
    exact performs_publishActions hcalls (blind_actions ctx f)
  · rw [if_neg hcalls, publishActions_of_quiet (Bool.eq_false_iff.2 hcalls)]

/-- An instruction performs its actions and what makes it leave. -/
theorem performs_instruction (ctx : LoweringContext) (count : Nat) (f : Fetched) :
    Performs h whole (instruction ctx count f ++ rest) s d ↔
      Performs h whole ((actions ctx f).map .act ++ (departure ctx count f ++ rest)) (commence ctx f s) d := by
  rw [instruction_eq, List.append_assoc]
  exact performs_published ctx f

/-- The value that a compiled instruction finds in an operand that is not in memory. -/
def operandValue (h : Helpers ε) (hotImm : Option UInt32) (op : Operand) (w : Width) (cpu : Cpu) (env : ε) : UInt32 :=
  match op with
  | .reg r => cpu.reg r
  | .mem _ => 0
  | .imm i =>
    match hotImm with
    | none => i.value &&& w.mask
    | some paddr =>
      let size := (Width.ofBytes? i.size).getD w
      let value := h.loadPhys paddr size env
      if size.bytes < w.bytes then size.signExtend value else value

/-- With cycles left, a pass goes on from the entry. -/
theorem performs_enter (hcycles : ¬s.cpu.cycles ≤ 0) (id : UInt32) :
    Performs h whole (.act (.enter id) :: rest) s d ↔ Performs h whole rest { s with running := id } d :=
  Performs.act_iff (by simp only [Action.perform, hcycles, if_false])

/-- The linear address of a memory operand is put into a temporary. -/
theorem performs_address (a : Address) (t : Tmp) :
    Performs h whole ((address a t).map .act ++ rest) s d ↔ Performs h whole rest (s.put t (s.cpu.linear a)) d := by
  have hlea : (Action.lea t a).perform h s = .ok (none, s.put t (s.cpu.offset a)) := rfl
  have hbase : (Action.addSegBase t a.seg).perform h (s.put t (s.cpu.offset a)) = .ok (none, s.put t (s.cpu.linear a)) := by
    simp [Action.perform, Activation.put, Cpu.linear, UInt32.add_comm]
  exact (Performs.act_iff hlea).trans (Performs.act_iff hbase)

/-- An operand that is not in memory is put into a temporary. -/
theorem performs_read {op : Operand} (hop : ∀ a, op ≠ .mem a) (hotImm : Option UInt32) (w : Width) (dst tmp : Tmp) :
    Performs h whole ((read hotImm op w dst tmp).map .act ++ rest) s d ↔
      Performs h whole rest (s.put dst (operandValue h hotImm op w s.cpu s.env)) d := by
  cases op with
  | reg r => exact Performs.act_iff rfl
  | mem a => exact absurd rfl (hop a)
  | imm i =>
      cases hotImm with
      | none => exact Performs.act_iff rfl
      | some paddr => exact Performs.act_iff (by simp [Action.perform, operandValue, Activation.put])

theorem performs_alu {op : AluOp} (hop : op.writesResult = true) (w : Width) (dst src : Tmp) :
    Performs h whole (.act (.alu op w dst src) :: rest) s d ↔
      Performs h whole rest ((s.put dst (Arithmetic.alu op w (s.get dst) (s.get src) s.cpu.eflags).1).withCpu
        { s.cpu with eflags := (Arithmetic.alu op w (s.get dst) (s.get src) s.cpu.eflags).2 }) d :=
  Performs.act_iff (by simp only [Action.perform, hop, if_true]; rfl)

theorem performs_unary (op : UnaryOp) (w : Width) (t : Tmp) :
    Performs h whole (.act (.unary op w t) :: rest) s d ↔
      Performs h whole rest ((s.put t (Arithmetic.unary op w (s.get t) s.cpu.eflags).1).withCpu
        { s.cpu with eflags := (Arithmetic.unary op w (s.get t) s.cpu.eflags).2 }) d :=
  Performs.act_iff rfl

/-! ### The stack -/

/-- A stack pointer is cut to the width of the stack. -/
theorem performs_wrapStack (ctx : LoweringContext) (t : Tmp) :
    Performs h whole ((wrapStack ctx t).map .act ++ rest) s d ↔
      Performs h whole rest (s.put t (s.get t &&& ctx.stackReg.width.mask)) d := by
  rw [wrapStack, LoweringContext.stackReg]
  split
  · have hall : s.get t &&& Width.w32.mask = s.get t := UInt32.and_neg_one
    rw [hall, Activation.put_get]
    rfl
  · exact Performs.act_iff rfl

/-- The stack pointer after a push. -/
def pushed (ctx : LoweringContext) (cpu : Cpu) (w : Width) : UInt32 :=
  (cpu.reg ctx.stackReg - w.bytes.toUInt32) &&& ctx.stackReg.width.mask

/-- A push comes to its store with nothing changed but temporaries. -/
theorem performs_push (ctx : LoweringContext) (w : Width) :
    Performs h whole ((push ctx w).map .act ++ rest) s d ↔
      Performs h whole (.act (.store .t1 .t0 w) :: .act (.storeReg ctx.stackReg .t2) :: rest)
        ((s.put .t2 (pushed ctx s.cpu w)).put .t1 (s.cpu.base .ss + pushed ctx s.cpu w)) d := by
  have hactions : (push ctx w).map MicroOp.act ++ rest = .act (.loadReg .t2 ctx.stackReg) :: .act (.addImm .t2 (0 - w.bytes.toUInt32)) ::
      ((wrapStack ctx .t2).map .act ++ (.act (.mov .t1 .t2) :: .act (.addSegBase .t1 .ss) :: .act (.store .t1 .t0 w) ::
        .act (.storeReg ctx.stackReg .t2) :: rest)) := by
    simp [push]
  let s₁ := s.put .t2 (s.cpu.reg ctx.stackReg)
  let s₂ := s₁.put .t2 (s₁.get .t2 + (0 - w.bytes.toUInt32))
  let s₃ := s₂.put .t2 (s₂.get .t2 &&& ctx.stackReg.width.mask)
  let s₄ := s₃.put .t1 (s₃.get .t2)
  have hload : (Action.loadReg .t2 ctx.stackReg).perform h s = .ok (none, s₁) := rfl
  have hadd : (Action.addImm .t2 (0 - w.bytes.toUInt32)).perform h s₁ = .ok (none, s₂) := rfl
  have hmov : (Action.mov .t1 .t2).perform h s₃ = .ok (none, s₄) := rfl
  have hbase : (Action.addSegBase .t1 .ss).perform h s₄ = .ok (none, s₄.put .t1 (s₄.get .t1 + s.cpu.base .ss)) := rfl
  have hsp : s₂.get .t2 &&& ctx.stackReg.width.mask = pushed ctx s.cpu w := by
    simp [s₂, s₁, pushed, UInt32.sub_eq_add_neg]
  have hend : s₄.put .t1 (s₄.get .t1 + s.cpu.base .ss) =
      (s.put .t2 (pushed ctx s.cpu w)).put .t1 (s.cpu.base .ss + pushed ctx s.cpu w) := by
    rw [← hsp]
    simp [s₄, s₃, s₂, s₁, UInt32.add_comm]
  rw [hactions, Performs.act_iff hload, Performs.act_iff hadd, performs_wrapStack, Performs.act_iff hmov, Performs.act_iff hbase, hend]

/-- A pop comes to its load with nothing changed but temporaries. -/
theorem performs_pop (ctx : LoweringContext) (w : Width) (extra : UInt32) :
    Performs h whole ((pop ctx w extra).map .act ++ rest) s d ↔
      Performs h whole (.act (.load .t0 .t1 w) :: .act (.addImm .t2 (w.bytes.toUInt32 + extra)) ::
          ((wrapStack ctx .t2).map .act ++ .act (.storeReg ctx.stackReg .t2) :: rest))
        ((s.put .t2 (s.cpu.reg ctx.stackReg)).put .t1 (s.cpu.base .ss + s.cpu.reg ctx.stackReg)) d := by
  have hactions : (pop ctx w extra).map MicroOp.act ++ rest = .act (.loadReg .t2 ctx.stackReg) :: .act (.mov .t1 .t2) ::
      .act (.addSegBase .t1 .ss) :: .act (.load .t0 .t1 w) :: .act (.addImm .t2 (w.bytes.toUInt32 + extra)) ::
      ((wrapStack ctx .t2).map .act ++ (.act (.storeReg ctx.stackReg .t2) :: rest)) := by
    simp [pop]
  let s₁ := s.put .t2 (s.cpu.reg ctx.stackReg)
  let s₂ := s₁.put .t1 (s₁.get .t2)
  have hload : (Action.loadReg .t2 ctx.stackReg).perform h s = .ok (none, s₁) := rfl
  have hmov : (Action.mov .t1 .t2).perform h s₁ = .ok (none, s₂) := rfl
  have hbase : (Action.addSegBase .t1 .ss).perform h s₂ = .ok (none, s₂.put .t1 (s₂.get .t1 + s.cpu.base .ss)) := rfl
  have hend : s₂.put .t1 (s₂.get .t1 + s.cpu.base .ss) =
      (s.put .t2 (s.cpu.reg ctx.stackReg)).put .t1 (s.cpu.base .ss + s.cpu.reg ctx.stackReg) := by
    simp [s₂, s₁, UInt32.add_comm]
  rw [hactions, Performs.act_iff hload, Performs.act_iff hmov, Performs.act_iff hbase, hend]

/-! ### Calls of helpers -/

section Helpers

variable {σ : Type} (p : Platform σ) {s : Activation (BlockEnv σ)} {d : Departure (BlockEnv σ)}

/-- A run of host code after a page fault was delivered. -/
def faulted (fault : PageFault) (s : Activation (BlockEnv σ)) : Activation (BlockEnv σ) :=
  let guest := p.pageFault fault ⟨s.cpu, s.env.bus, s.env.host⟩
  { s with cpu := guest.cpu, env := ⟨guest.bus, guest.host, { s.env.stats with pageFaults := s.env.stats.pageFaults + 1 }⟩ }

/-- A load either gives the value at a linear address or ends the pass with a page fault. -/
theorem performs_load (dst addr : Tmp) (w : Width) :
    Performs (BlockEnv.helpers p) whole (.act (.load dst addr w) :: rest) s d ↔
      match s.env.bus.mem.loadLinear (s.get addr) w with
      | .ok value => Performs (BlockEnv.helpers p) whole rest (s.put dst value) d
      | .error fault => d = .exit .normal (faulted p fault s) := by
  obtain ⟨cpu, env, temps, running, callback⟩ := s
  have hget : Activation.get ⟨cpu, env, temps, running, callback⟩ addr = temps[addr.index] := rfl
  rw [hget]
  dsimp only
  cases hload : env.bus.mem.loadLinear temps[addr.index] w with
  | ok value =>
      refine Performs.act_iff ?_
      unfold Action.perform BlockEnv.helpers BlockEnv.load
      dsimp only
      rw [hload]
      rfl
  | error fault =>
      refine Performs.exit_iff ?_
      unfold Action.perform BlockEnv.helpers BlockEnv.load
      dsimp only
      rw [hload]
      rfl

theorem performs_load_of_ok {dst addr : Tmp} {w : Width} {value : UInt32}
    (hload : s.env.bus.mem.loadLinear (s.get addr) w = .ok value) :
    Performs (BlockEnv.helpers p) whole (.act (.load dst addr w) :: rest) s d ↔
      Performs (BlockEnv.helpers p) whole rest (s.put dst value) d := by
  rw [performs_load, hload]

/-- A store goes through, ends the pass with a page fault, or hits the running block. -/
theorem performs_store (addr src : Tmp) (w : Width) :
    Performs (BlockEnv.helpers p) whole (.act (.store addr src w) :: rest) s d ↔
      match BlockEnv.storeLinear (s.get addr) w (s.get src) s.runningBlock s.env.bus with
      | (.ok false, bus) => Performs (BlockEnv.helpers p) whole rest { s with env := { s.env with bus } } d
      | (.ok true, bus) =>
        d = .exit .smcBlock { s with env := ⟨bus, s.env.host, { s.env.stats with smcExits := s.env.stats.smcExits + 1 }⟩ }
      | (.error fault, bus) => d = .exit .normal (faulted p fault { s with env := { s.env with bus } }) := by
  obtain ⟨cpu, ⟨bus, host, stats⟩, temps, running, callback⟩ := s
  have hget (t : Tmp) : Activation.get (⟨cpu, ⟨bus, host, stats⟩, temps, running, callback⟩ : Activation (BlockEnv σ)) t =
      temps[t.index] := rfl
  rw [hget, hget]
  dsimp only
  have hperform : (Action.store addr src w).perform (BlockEnv.helpers p) ⟨cpu, ⟨bus, host, stats⟩, temps, running, callback⟩ =
      (BlockEnv.store p temps[addr.index] w temps[src.index]
        (Activation.runningBlock ⟨cpu, (⟨bus, host, stats⟩ : BlockEnv σ), temps, running, callback⟩) cpu ⟨bus, host, stats⟩).map
          (Action.afterCall temps running callback) := rfl
  unfold BlockEnv.store at hperform
  dsimp only at hperform
  generalize BlockEnv.storeLinear temps[addr.index] w temps[src.index] _ bus = out at hperform ⊢
  obtain ⟨fault | hit, bus'⟩ := out
  · exact Performs.exit_iff hperform
  · cases hit with
    | false => exact Performs.act_iff hperform
    | true => exact Performs.exit_iff hperform

theorem performs_store_of_hit {addr src : Tmp} {w : Width} {bus : Bus Cache}
    (hhit : BlockEnv.storeLinear (s.get addr) w (s.get src) s.runningBlock s.env.bus = (.ok true, bus)) :
    Performs (BlockEnv.helpers p) whole (.act (.store addr src w) :: rest) s d ↔
      d = .exit .smcBlock { s with env := ⟨bus, s.env.host, { s.env.stats with smcExits := s.env.stats.smcExits + 1 }⟩ } := by
  rw [performs_store, hhit]

/-- A run of host code after a divide error was raised. -/
def raised (s : Activation (BlockEnv σ)) : Activation (BlockEnv σ) :=
  let guest := p.raiseException divideError none ⟨s.cpu, s.env.bus, s.env.host⟩
  { s with cpu := guest.cpu, env := ⟨guest.bus, guest.host, { s.env.stats with divideErrors := s.env.stats.divideErrors + 1 }⟩ }

/-- A division goes through, or ends the pass with a divide error. -/
theorem performs_divide (w : Width) (signed : Bool) (divisor : Tmp) :
    Performs (BlockEnv.helpers p) whole (.act (.div w signed divisor) :: rest) s d ↔
      match s.cpu.divide w signed (s.get divisor) with
      | some cpu => Performs (BlockEnv.helpers p) whole rest (s.withCpu cpu) d
      | none => d = .exit .normal (raised p s) := by
  obtain ⟨cpu, ⟨bus, host, stats⟩, temps, running, callback⟩ := s
  have hget : Activation.get (⟨cpu, ⟨bus, host, stats⟩, temps, running, callback⟩ : Activation (BlockEnv σ)) divisor =
      temps[divisor.index] := rfl
  rw [hget]
  have hperform : (Action.div w signed divisor).perform (BlockEnv.helpers p) ⟨cpu, ⟨bus, host, stats⟩, temps, running, callback⟩ =
      (BlockEnv.divide p w signed temps[divisor.index] cpu ⟨bus, host, stats⟩).map (Action.afterCall temps running callback) := rfl
  unfold BlockEnv.divide at hperform
  dsimp only at hperform ⊢
  cases hdiv : cpu.divide w signed temps[divisor.index] with
  | some cpu' =>
      rw [hdiv] at hperform
      exact Performs.act_iff hperform
  | none =>
      rw [hdiv] at hperform
      exact Performs.exit_iff hperform

/-- The processor after an interrupt return. -/
def returned (cpu : Cpu) (w : Width) (values : List UInt32) (sp : UInt32) : Cpu :=
  let mask := Flag.iretMask w
  let cpu' := { cpu with eip := values.getD 0 0 &&& w.mask }.loadRealSegment .cs (values.getD 1 0).toUInt16
  { cpu' with eflags := (cpu.eflags &&& ~~~mask) ||| (values.getD 2 0 &&& mask) ||| Flag.reserved1 }.setReg cpu.stackReg sp

/-- An interrupt return takes its three values off the stack, or ends the pass with a page fault. -/
theorem performs_iret (w : Width) :
    Performs (BlockEnv.helpers p) whole (.act (.iret w) :: rest) s d ↔
      match BlockEnv.popValues s.cpu s.env.bus.mem w 3 (s.cpu.reg s.cpu.stackReg) with
      | .ok (values, sp) => Performs (BlockEnv.helpers p) whole rest (s.withCpu (returned s.cpu w values sp)) d
      | .error fault => d = .exit .normal (faulted p fault s) := by
  obtain ⟨cpu, ⟨bus, host, stats⟩, temps, running, callback⟩ := s
  have hperform : (Action.iret w).perform (BlockEnv.helpers p) ⟨cpu, ⟨bus, host, stats⟩, temps, running, callback⟩ =
      (BlockEnv.iret p w cpu ⟨bus, host, stats⟩).map (Action.afterCall temps running callback) := rfl
  unfold BlockEnv.iret at hperform
  dsimp only at hperform ⊢
  cases hpop : BlockEnv.popValues cpu bus.mem w 3 (cpu.reg cpu.stackReg) with
  | ok out =>
      rw [hpop] at hperform
      exact Performs.act_iff hperform
  | error fault =>
      rw [hpop] at hperform
      exact Performs.exit_iff hperform

end Helpers

end Lowering

end Recompiler
