import Recompiler.Proofs.Compile.Charges
import Recompiler.Proofs.Dispatch.Arena

/-! Cycle accounting. The instructions of a block stand one behind the other on two pages, so that there are no more of
them than bytes on these pages, and charging for them never wraps. A pass through a block that leaves it by itself takes
from the cycles the number of instructions that it completed. -/

namespace Recompiler

open MicroOp Scan

/-! ### The length of a trace -/

namespace Scan

variable {site : Site}

theorem toNat_add_one_linearPage (hsite : site.linearPage.toNat < 2 ^ 20) :
    (site.linearPage + 1).toNat = site.linearPage.toNat + 1 := by
  rw [UInt32.toNat_add]
  change (site.linearPage.toNat + 1) % 4294967296 = _
  omega

/-- A fetched instruction begins on the two pages of a block. -/
theorem Nearby.window {inst : Instruction} (h : Nearby site inst) (hsite : site.linearPage.toNat < 2 ^ 20) :
    site.linearPage.toNat * 4096 ≤ (site.cpu.base .cs + inst.ip).toNat ∧
      (site.cpu.base .cs + inst.ip).toNat < site.linearPage.toNat * 4096 + 8192 := by
  rcases h.page with hpage | hpage
  all_goals
    have hnat := congrArg UInt32.toNat hpage
    rw [toNat_pageOf] at hnat
  · omega
  · rw [toNat_add_one_linearPage hsite] at hnat
    omega

/-- If the next instruction is fetched for the block as well, it stands right behind this one: the instruction pointer does
not wrap within two pages. -/
theorem Nearby.next {inst inst' : Instruction} (h : Nearby site inst) (h' : Nearby site inst') (hsite : site.linearPage.toNat < 2 ^ 20)
    {code32 : Bool} (hnext : inst'.ip = inst.nextIp code32) :
    (site.cpu.base .cs + inst'.ip).toNat = (site.cpu.base .cs + inst.ip).toNat + inst.len := by
  have hwindow := h.window hsite
  have hwindow' := h'.window hsite
  have hlen : inst.len ≤ 15 := h.le
  have hsum : (inst.ip + inst.len.toUInt32).toNat = (inst.ip.toNat + inst.len) % 4294967296 := by
    rw [UInt32.toNat_add, toNat_ofNat_toUInt32 (by omega)]
  have hmod : (site.cpu.base .cs + inst'.ip).toNat % 65536 = ((site.cpu.base .cs + inst.ip).toNat + inst.len) % 65536 := by
    rw [hnext, Instruction.nextIp, UInt32.toNat_add, UInt32.toNat_add]
    cases code32 with
    | true =>
        simp only [if_true, hsum]
        omega
    | false =>
        have hmask : (65535 : UInt32).toNat = 2 ^ 16 - 1 := rfl
        simp only [Bool.false_eq_true, if_false, UInt32.toNat_and, hmask, Nat.and_two_pow_sub_one_eq_mod, hsum]
        omega
  omega

/-- The instructions of a trace take a byte each of what is left of the two pages. -/
theorem Follows.length_le (hsite : site.linearPage.toNat < 2 ^ 20) {code32 : Bool} {eip : UInt32} {insts : List Fetched}
    {stop : TraceEnd} (h : Follows code32 eip insts stop) (hnear : ∀ f ∈ insts, Nearby site f.inst) (hinsts : insts ≠ []) :
    (site.cpu.base .cs + eip).toNat + insts.length ≤ site.linearPage.toNat * 4096 + 8192 := by
  induction insts generalizing eip with
  | nil => exact absurd rfl hinsts
  | cons f insts ih =>
      obtain ⟨rfl, hrest⟩ := h
      have hf := hnear f List.mem_cons_self
      have hwindow := hf.window hsite
      cases insts with
      | nil =>
          rw [List.length_singleton]
          omega
      | cons f' insts =>
          by_cases hends : f.inst.endsBlock = true
          · rw [if_pos hends] at hrest
            exact absurd hrest.1 (List.cons_ne_nil _ _)
          · rw [if_neg hends] at hrest
            have hbound := ih hrest (fun g hg => hnear g (List.mem_cons_of_mem f hg)) (List.cons_ne_nil _ _)
            have hip : f'.inst.ip = f.inst.nextIp code32 := hrest.1
            have hnext := hf.next (hnear f' (by simp)) hsite hip
            have hpos := hf.pos
            rw [hip] at hnext
            rw [List.length_cons]
            omega

end Scan

namespace Compilation

variable (k : Compilation)

theorem nearby : ∀ f ∈ k.trace.insts, Nearby k.site f.inst := by
  unfold trace
  split
  · rename_i hout
    exact Scan.nearby_of_take hout
  · simp

theorem length_insts_le : k.trace.insts.length ≤ 8192 := by
  by_cases hinsts : k.trace.insts = []
  · rw [hinsts]
    exact Nat.zero_le _
  · have hpage : k.site.linearPage = pageOf k.cpu.ipLinear := rfl
    have hsite : k.site.linearPage.toNat < 2 ^ 20 := hpage ▸ toNat_pageOf_lt _
    have hbound := k.follows.length_le hsite k.nearby hinsts
    have hstart : k.site.linearPage.toNat = (k.site.cpu.base .cs + k.cpu.eip).toNat / 4096 := by
      rw [hpage, toNat_pageOf]
      rfl
    omega

end Compilation

/-! ### Charges -/

/-- A small charge to a positive number of cycles does not wrap. -/
theorem toInt_sub_charge {cycles : Int32} (hcycles : 0 < cycles) {n : Nat} (hn : n ≤ 8192) :
    (cycles - n.toUInt32.toInt32).toInt = cycles.toInt - n := by
  have hpos : 0 < cycles.toInt := Int32.lt_iff_toInt_lt.mp hcycles
  have hlt := cycles.toInt_lt
  have hcharge : n.toUInt32.toInt32.toInt = n := by
    rw [Nat.toUInt32, UInt32.toInt32_ofNat', Int32.toInt_ofNat_of_lt (by omega)]
  rw [Int32.toInt_sub, hcharge]
  exact Int.bmod_eq_of_le (by omega) (by omega)

namespace Compilation

variable {σ : Type} (k : Compilation)

/-- Number of instructions of the block that are not left to the interpreter. -/
def completed : Nat :=
  Lowering.completed k.context k.trace.insts

theorem completed_le : k.completed ≤ 8192 :=
  List.countP_le_length.trans k.length_insts_le

theorem stop_of_nil (h : k.trace.insts = []) : ∃ eip, k.trace.stop = .unfetchable eip := by
  revert h
  unfold trace
  split
  · rename_i hout
    exact fun h => ⟨_, Scan.stop_of_take_nil hout h⟩
  · exact fun _ => ⟨_, rfl⟩

variable {p : Platform σ} {s s' : Activation (BlockEnv σ)} {op : MicroOp} {rest : List MicroOp}

/-- A pass is about to leave the block by itself: it has performed all actions of the block's instructions and was charged for
those that are not left to the interpreter. These are all of them, or all but the last one if the exit is to the interpreter. -/
structure Departs (p : Platform σ) (s s' : Activation (BlockEnv σ)) (op : MicroOp) : Prop where
  done : ∃ s₁, Action.Done (BlockEnv.helpers p) (k.trace.insts.flatMap (Lowering.work k.context))
    { s with running := k.block.toUInt32 } s₁
  cycles : s'.cpu.cycles.toInt = s.cpu.cycles.toInt - k.completed
  free : ∀ a, op = .act a → a.free = true
  completed : op.leaves = true → k.completed =
    if op = .exit .opcode ∨ op = .exit .opcodeFull then k.trace.insts.length - 1 else k.trace.insts.length
  nonempty : op.leaves = true → k.trace.insts = [] → op = .exit .opcode ∨ op = .exit .opcodeFull

/-- Where a pass through a block stands: at the entry, before the charge with the cycles of the entry, or behind it. -/
theorem comes_cases (hcomes : Comes (BlockEnv.helpers p) k.ops (k.ops, s) (op :: rest, s')) :
    op = .act (.enter k.block.toUInt32) ∧ s' = s ∨
      0 < s.cpu.cycles ∧
        (s'.cpu.cycles = s.cpu.cycles ∧ (op = .act (.subCycles k.completed.toUInt32) ∨ ∃ a, a.free = true ∧ op = .act a) ∨
          k.Departs p s s' op) := by
  obtain ⟨last, handed, hops, hlast, hcount⟩ := Lowering.block_charges k.context k.follows k.stop_of_nil
  have hfree : ∀ a ∈ k.trace.insts.flatMap (Lowering.work k.context), a.free = true := by
    intro a ha
    obtain ⟨f, -, haf⟩ := List.mem_flatMap.mp ha
    exact Lowering.free_work k.context f a haf
  rcases hcomes.charged hfree hlast.free hops with hentry | ⟨hcycles, ⟨hsame, a, ha, rfl⟩ | ⟨hspent, hmem, hdone⟩⟩
  · exact .inl hentry
  · refine .inr ⟨hcycles, .inl ⟨hsame, ?_⟩⟩
    rcases List.mem_cons.mp ha with rfl | ha
    · exact .inl rfl
    · exact .inr ⟨a, hfree a ha, rfl⟩
  refine .inr ⟨hcycles, .inr ⟨hdone, ?_, ?_, fun hleaves => ?_, fun hleaves hinsts => ?_⟩⟩
  · rw [hspent]
    exact toInt_sub_charge hcycles k.completed_le
  · rintro a rfl
    exact hlast.free a hmem
  · have hexit := hlast.leaves op hmem hleaves
    unfold completed
    by_cases hinsts : k.trace.insts = []
    · simp [hinsts, Lowering.completed]
    · rw [if_neg hinsts] at hcount
      cases handed with
      | false =>
          rw [if_neg fun h => by cases hexit.mpr h]
          simpa using hcount
      | true =>
          rw [if_pos (hexit.mp rfl)]
          simp only [Bool.toNat_true] at hcount
          omega
  · rw [if_pos hinsts] at hcount
    exact (hlast.leaves op hmem hleaves).mp hcount

theorem Departs.pos (h : k.Departs p s s' op) (hleaves : op.leaves = true)
    (hexit : ¬(op = .exit .opcode ∨ op = .exit .opcodeFull)) : 0 < k.completed := by
  rw [h.completed hleaves, if_neg hexit]
  exact List.length_pos_iff.mpr fun hinsts => hexit (h.nonempty hleaves hinsts)

/-- If a pass through a block leaves it by an exit or a link of its own, it has performed all actions of the block's
instructions, and the cycles are less by the number of those that were not left to the interpreter: all of them, or all but the
last one if the exit is to the interpreter. -/
theorem cycles_of_leaves (hcomes : Comes (BlockEnv.helpers p) k.ops (k.ops, s) (op :: rest, s')) (hleaves : op.leaves = true) :
    s'.cpu.cycles.toInt = s.cpu.cycles.toInt - k.completed ∧
      (k.completed =
        if op = .exit .opcode ∨ op = .exit .opcodeFull then k.trace.insts.length - 1 else k.trace.insts.length) ∧
      ∃ s₁, Action.Done (BlockEnv.helpers p) (k.trace.insts.flatMap (Lowering.work k.context))
        { s with running := k.block.toUInt32 } s₁ := by
  rcases k.comes_cases hcomes with ⟨rfl, -⟩ | ⟨-, ⟨-, rfl | ⟨a, -, rfl⟩⟩ | hdeparts⟩
  · cases hleaves
  · cases hleaves
  · cases hleaves
  · exact ⟨hdeparts.cycles, hdeparts.completed hleaves, hdeparts.done⟩

/-- An increment and an instruction that is left to the interpreter. -/
def incrementHalt : Compilation :=
  Machine.scantCompilation (Machine.onePage 0 [0x40, 0xF4]) { Cpu.flat32 with cycles := 10 } 0

/-- A pass through the block, before its entry. -/
def incrementStart : Activation (BlockEnv Interpreter) where
  cpu := incrementHalt.cpu
  env := ⟨⟨incrementHalt.mem, incrementHalt.cache⟩, {}, {}⟩

theorem comes_incrementHalt :
    ∃ s', Comes (BlockEnv.helpers Interpreter.platform) incrementHalt.ops (incrementHalt.ops, incrementStart) ([.exit .opcode], s') := by
  have hops : incrementHalt.ops = [.act (.enter 0), .act (.loadReg .t0 ⟨.eax, .w32, false⟩), .act (.unary .inc .w32 .t0),
      .act (.storeReg ⟨.eax, .w32, false⟩ .t0), .act (.subCycles 1), .act (.setEip 1), .exit .opcode] := by
    decide +kernel
  rw [hops]
  exact ⟨_, .head (.act rfl) (.head (.act rfl) (.head (.act rfl) (.head (.act rfl) (.head (.act rfl) (.head (.act rfl) .refl)))))⟩

/-- The increment is charged, and the instruction that the interpreter gets is not. -/
theorem cycles_of_leaves_incrementHalt :
    0 < incrementStart.cpu.cycles ∧ incrementHalt.trace.insts.length = 2 ∧
      ∃ s', Comes (BlockEnv.helpers Interpreter.platform) incrementHalt.ops (incrementHalt.ops, incrementStart) ([.exit .opcode], s') ∧
        s'.cpu.cycles.toInt = 10 - 1 := by
  have hlength : incrementHalt.trace.insts.length = 2 := by decide +kernel
  obtain ⟨s', hcomes⟩ := comes_incrementHalt
  obtain ⟨hcycles, hcompleted, -⟩ := cycles_of_leaves incrementHalt hcomes rfl
  refine ⟨by decide, hlength, s', hcomes, ?_⟩
  rw [hcycles, hcompleted, hlength]
  decide

end Compilation

end Recompiler
