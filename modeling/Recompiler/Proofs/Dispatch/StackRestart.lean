import Recompiler.Proofs.Code.Points
import Recompiler.Proofs.Compile.Operands
import Recompiler.Proofs.Dispatch.Arena
import Recompiler.Proofs.Dispatch.CheckedStores

/-! Instructions that commit nothing before their last access went through: pushes, pops, calls, returns, interrupt returns
and divisions. Up to there they have changed temporaries only. If they are given up, the platform finds the processor as it
was at their start, at their own instruction pointer, and can run them again. -/

namespace Recompiler

open MicroOp

/-- Whether compiled code of an instruction commits nothing before its last access. An interrupt return is compiled for real
mode only. -/
def Kind.commitsLast (protectedMode : Bool) : Kind → Bool
  | push _ | pop _ | call _ | ret _ | div .. => true
  | iret => !protectedMode
  | _ => false

namespace Lowering

variable {σ : Type} (p : Platform σ)

/-- An instruction is given up in the state `s`: a page fault or a divide error is delivered, or a store hits the running block.
Unless the store goes to two pages, from `linear` on, memory is as it was. -/
inductive GivesUp (s : Activation (BlockEnv σ)) (linear : UInt32) (w : Width) : Departure (BlockEnv σ) → Prop where
  | fault (fault : PageFault) : GivesUp s linear w (.exit .normal (faulted p fault s))
  | divideError : GivesUp s linear w (.exit .normal (raised p s))
  | hit {bus : Bus Cache} (hmem : fitsInPage linear w = true → bus.mem = s.env.bus.mem) : GivesUp s linear w
      (.exit .smcBlock { s with env := ⟨bus, s.env.host, { s.env.stats with smcExits := s.env.stats.smcExits + 1 }⟩ })

variable {p} {whole rest : List MicroOp} {s : Activation (BlockEnv σ)} {d : Departure (BlockEnv σ)} {w : Width} {linear : UInt32}

theorem not_performs_nil : ¬Performs (BlockEnv.helpers p) whole [] s d := by
  intro hperf
  cases hperf

/-- Reading an operand changes temporaries only. -/
theorem read_givesUp {hotImm : Option UInt32} {op : Operand} {dst tmp : Tmp}
    (hperf : Performs (BlockEnv.helpers p) whole ((read hotImm op w dst tmp).map .act ++ rest) s d) :
    (∃ temps fault, d = .exit .normal (faulted p fault { s with temps })) ∨
      ∃ temps, Performs (BlockEnv.helpers p) whole rest { s with temps } d := by
  cases op with
  | reg r => exact .inr ⟨_, (performs_read (by simp) hotImm w dst tmp).mp hperf⟩
  | imm i => exact .inr ⟨_, (performs_read (by simp) hotImm w dst tmp).mp hperf⟩
  | mem a =>
      rw [read, List.map_append, List.append_assoc, performs_address] at hperf
      have hload := (performs_load p dst tmp w).mp hperf
      split at hload
      · exact .inr ⟨_, hload⟩
      · exact .inl ⟨_, _, hload⟩

/-- A store that is the last thing to go wrong. -/
theorem store_givesUp {addr src : Tmp} {r : Reg}
    (hperf : Performs (BlockEnv.helpers p) whole [.act (.store addr src w), .act (.storeReg r .t2)] s d) :
    GivesUp p s (s.get addr) w d := by
  have hstore := (performs_store p addr src w).mp hperf
  split at hstore
  · cases hstore with
    | step hact hrest => exact absurd hrest not_performs_nil
    | leave hact => cases hact
    | abort hact => cases hact
  · rename_i bus hout
    subst hstore
    refine .hit fun hfit => ?_
    obtain ⟨n, -, hn, hmem⟩ := BlockEnv.storeLinear_hit hout
    rw [hmem, hn hfit]
    rfl
  · rename_i fault bus hout
    subst hstore
    obtain rfl := BlockEnv.storeLinear_fault hout
    exact .fault fault

/-- A push that does not go through has changed temporaries only. -/
theorem push_givesUp {ctx : LoweringContext} (hperf : Performs (BlockEnv.helpers p) whole ((push ctx w).map .act ++ []) s d) :
    ∃ temps, GivesUp p { s with temps } (s.cpu.base .ss + pushed ctx s.cpu w) w d := by
  have hstore := store_givesUp ((performs_push ctx w).mp hperf)
  simp only [Activation.get_put, if_true] at hstore
  exact ⟨_, hstore⟩

/-- A pop that does not go through has changed temporaries only, and what follows its load cannot fail. -/
theorem pop_givesUp {ctx : LoweringContext} {extra : UInt32} {a : Action} (ha : ∀ t, ∃ t', a.perform (BlockEnv.helpers p) t = .ok (none, t'))
    (hperf : Performs (BlockEnv.helpers p) whole ((pop ctx w extra).map .act ++ [.act a]) s d) :
    ∃ temps, GivesUp p { s with temps } linear w d := by
  have hload := (performs_load p .t0 .t1 w).mp ((performs_pop ctx w extra).mp hperf)
  split at hload
  · have hwrap := (performs_wrapStack ctx .t2).mp ((Performs.act_iff rfl).mp hload)
    have hlast := (Performs.act_iff rfl).mp hwrap
    obtain ⟨t', ht'⟩ := ha _
    exact absurd ((Performs.act_iff ht').mp hlast) not_performs_nil
  · rename_i fault _
    subst hload
    exact ⟨_, .fault fault⟩

/-- Where the actions of an instruction that commits last are not completed, temporaries are all they have changed. -/
theorem actions_giveUp {ctx : LoweringContext} {f : Fetched} (hkind : f.inst.kind.commitsLast ctx.protectedMode = true)
    (hperf : Performs (BlockEnv.helpers p) whole ((actions ctx f).map .act ++ []) s d) :
    ∃ temps, GivesUp p { s with temps } (s.cpu.base .ss + pushed ctx s.cpu f.inst.width) f.inst.width d := by
  unfold actions at hperf
  cases hk : f.inst.kind with
  | push src =>
      simp only [hk, List.map_append, List.append_assoc] at hperf
      rcases read_givesUp hperf with ⟨temps, fault, rfl⟩ | ⟨temps, hpush⟩
      · exact ⟨temps, .fault fault⟩
      · obtain ⟨temps', hgives⟩ := push_givesUp hpush
        exact ⟨temps', hgives⟩
  | pop dst =>
      simp only [hk, List.map_append, List.append_assoc] at hperf
      exact pop_givesUp (fun t => ⟨_, rfl⟩) hperf
  | call target =>
      simp only [hk] at hperf
      have himm : (Action.loadImm .t0 (f.inst.nextIp ctx.code32)).perform (BlockEnv.helpers p) s =
          .ok (none, s.put .t0 (f.inst.nextIp ctx.code32)) := rfl
      obtain ⟨temps, hgives⟩ := push_givesUp ((Performs.act_iff himm).mp hperf)
      exact ⟨temps, hgives⟩
  | ret extra =>
      simp only [hk, List.map_append, List.append_assoc] at hperf
      exact pop_givesUp (fun t => ⟨_, rfl⟩) hperf
  | div signed src =>
      simp only [hk, List.map_append, List.append_assoc] at hperf
      rcases read_givesUp hperf with ⟨temps, fault, rfl⟩ | ⟨temps, hdiv⟩
      · exact ⟨temps, .fault fault⟩
      · have hout := (performs_divide p f.inst.width signed .t0).mp hdiv
        split at hout
        · exact absurd hout not_performs_nil
        · subst hout
          exact ⟨temps, .divideError⟩
  | iret =>
      rw [hk] at hkind
      have hreal : ctx.protectedMode = false := (Bool.not_eq_true' _).mp hkind
      simp only [hk, hreal, Bool.false_eq_true, if_false] at hperf
      have hout := (performs_iret p f.inst.width).mp hperf
      split at hout
      · exact absurd hout not_performs_nil
      · rename_i fault _
        subst hout
        exact ⟨s.temps, .fault fault⟩
  | _ =>
      rw [hk] at hkind
      cases hkind

theorem calls_of_commitsLast {ctx : LoweringContext} {f : Fetched} (hkind : f.inst.kind.commitsLast ctx.protectedMode = true) :
    (actions ctx f).any Action.callsHelper = true := by
  unfold actions
  cases hk : f.inst.kind with
  | iret =>
      rw [hk] at hkind
      have hreal : ctx.protectedMode = false := (Bool.not_eq_true' _).mp hkind
      simp [hreal, Action.callsHelper]
  | push | pop | call | ret | div => simp [push, pop, Action.callsHelper]
  | _ =>
      rw [hk] at hkind
      cases hkind

/-- A compiled push, pop, call, return, division or real-mode interrupt return either completes, with all its accesses, or is
given up: the fault or exception is then delivered to the processor as it was when the instruction began, at its own
instruction pointer, and a store that hits the running block leaves it like that. Memory is as it was, unless the store of a
push or call goes to two pages. -/
theorem restarts_of_commitsLast {ctx : LoweringContext} {count : Nat} {f : Fetched}
    (hkind : f.inst.kind.commitsLast ctx.protectedMode = true)
    (hperf : Performs (BlockEnv.helpers p) whole (instruction ctx count f ++ rest) s d) :
    (∃ s', Action.Done (BlockEnv.helpers p) (actions ctx f) (s.atEip f.inst.ip) s' ∧
        Performs (BlockEnv.helpers p) whole (departure ctx count f ++ rest) s' d) ∨
      ∃ temps, GivesUp p { s with cpu := { s.cpu with eip := f.inst.ip }, temps }
        (s.cpu.base .ss + pushed ctx s.cpu f.inst.width) f.inst.width d := by
  rw [performs_instruction, commence_of_calls (calls_of_commitsLast hkind)] at hperf
  rcases performs_acts_iff.mp hperf with hends | hdone
  · -- Nothing behind the actions has a part in it.
    have hactions : Performs (BlockEnv.helpers p) whole ((actions ctx f).map .act ++ []) (s.atEip f.inst.ip) d :=
      performs_acts_iff.mpr (.inl hends)
    exact .inr (actions_giveUp hkind hactions)
  · exact .inl hdone

/-! ### A push to a page that is not there -/

/-- Nothing, a push and a jump back, at the start of the only page. -/
def pushLoop : Memory :=
  Machine.onePage 0 [0x90, 0x50, 0xEB, 0xFC]

/-- The stack is on the page behind it. -/
def pushCpu : Cpu :=
  { Cpu.flat32 with regs := #v[7, 0, 0, 0, 0x2000, 0, 0, 0], cycles := 10 }

def pushFetched : Fetched where
  inst := { ip := 1, len := 1, width := .w32, kind := .push (.reg ⟨.eax, .w32, false⟩) }
  hotImm := none

/-- The pass through the block when the push begins; the instruction pointer is still that of the block. -/
def pushStart : Activation (BlockEnv Interpreter) where
  cpu := pushCpu
  env := ⟨⟨pushLoop, Machine.scantWatching 0 true⟩, {}, {}⟩
  running := 0

/-- The page fault of the push. -/
def pushFault : PageFault where
  linear := 0x1FFC
  errorCode := 2

theorem trace_pushLoop : (Machine.scantCompilation pushLoop pushCpu 0).trace.insts[1]? = some pushFetched := by
  decide +kernel

theorem exists_performs_push (whole rest : List MicroOp) :
    ∃ temps, Performs (BlockEnv.helpers Interpreter.platform) whole (instruction (Compile.context pushCpu 0) 1 pushFetched ++ rest)
      pushStart (.exit .normal (faulted Interpreter.platform pushFault { pushStart.atEip 1 with temps })) := by
  have hactions : actions (Compile.context pushCpu 0) pushFetched =
      [.loadReg .t0 ⟨.eax, .w32, false⟩] ++ push (Compile.context pushCpu 0) .w32 := rfl
  have hresolve : pushLoop.resolve 0x1FFC true = .error pushFault := by decide +kernel
  let s₁ := (pushStart.atEip 1).put .t0 7
  have hload : (Action.loadReg .t0 ⟨.eax, .w32, false⟩).perform (BlockEnv.helpers Interpreter.platform) (pushStart.atEip 1) =
      .ok (none, s₁) := rfl
  have hpushed : pushed (Compile.context pushCpu 0) s₁.cpu .w32 = 0x1FFC := by decide
  have hstore : BlockEnv.storeLinear 0x1FFC .w32 7 (some 0) ⟨pushLoop, Machine.scantWatching 0 true⟩ =
      (.error pushFault, ⟨pushLoop, Machine.scantWatching 0 true⟩) := by
    simp only [BlockEnv.storeLinear, hresolve]
  refine ⟨((s₁.put .t2 0x1FFC).put .t1 0x1FFC).temps, ?_⟩
  rw [performs_instruction, commence_of_calls (by decide), hactions, List.map_append, List.append_assoc]
  refine (Performs.act_iff hload).mpr ((performs_push _ _).mpr ((performs_store ..).mpr ?_))
  rw [hpushed]
  have hlinear : s₁.cpu.base .ss + 0x1FFC = 0x1FFC := by decide
  rw [hlinear]
  simp only [Activation.get_put, if_true]
  exact hstore ▸ rfl

/-- The push is given up at its own instruction pointer, where the registers are as they were. -/
theorem restarts_of_commitsLast_push :
    (Machine.scantCompilation pushLoop pushCpu 0).trace.insts[1]? = some pushFetched ∧ pushStart.cpu.eip = 0 ∧ ∃ d,
      Performs (BlockEnv.helpers Interpreter.platform) (Machine.scantCompilation pushLoop pushCpu 0).ops
        (instruction (Compile.context pushCpu 0) 1 pushFetched ++ []) pushStart d ∧
      ∃ temps, GivesUp Interpreter.platform { pushStart with cpu := { pushCpu with eip := 1 }, temps }
        (pushCpu.base .ss + pushed (Compile.context pushCpu 0) pushCpu .w32) .w32 d := by
  obtain ⟨temps, hperf⟩ := exists_performs_push (Machine.scantCompilation pushLoop pushCpu 0).ops []
  refine ⟨trace_pushLoop, rfl, _, hperf, ?_⟩
  rcases restarts_of_commitsLast rfl hperf with ⟨s', -, hrest⟩ | hgives
  · exact absurd hrest not_performs_nil
  · exact hgives

end Lowering

end Recompiler
