import Recompiler.Proofs.Dispatch.Failures
import Recompiler.Proofs.Dispatch.Monitors
import Recompiler.Proofs.Guest.Shapes

/-! How long the host code of a block is. Each micro-operation has a bound for its code on hosts of either kind. At most
one operand of an instruction is in memory, so that the longest instruction loads from memory, reads an immediate that
changes often, combines the two and stores the result. A block is what enters it, its instructions, and what leaves it:
the largest number of instructions that is compiled by default fits the least span that is handed out by default. -/

namespace Recompiler

open Cache

/-- Most bytes of host code for an action, on hosts of either kind. -/
def Action.bytes : Action → Nat
  | .enter _ => 31
  | .loadImm .. => 6
  | .loadPhys .. => 28
  | .loadReg .. | .storeReg .. => 8
  | .mov .. => 3
  | .addImm .. | .andImm .. | .addSegBase .. | .storeEip _ => 7
  | .lea .. => 33
  | .alu .. | .load .. | .store .. => 42
  | .unary .. => 33
  | .div .. => 39
  | .interpret _ | .iret _ => 36
  | .subCycles _ | .setEip _ | .setCallback _ => 11

/-- Most bytes of host code for a micro-operation. -/
def MicroOp.bytes : MicroOp → Nat
  | .act a => a.bytes
  | .jumpIf .. => 20
  | .bind _ => 0
  | .exit _ => 10
  | .link .. => 12

namespace HostEncoding

variable (e : HostEncoding)

@[simp] theorem size_nil : e.size [] = 0 := rfl

@[simp] theorem size_cons (p : Piece) (ps : List Piece) : e.size (p :: ps) = e.pieceSize p + e.size ps := by
  simp [size]

@[simp] theorem pieceSize_raw (bytes : List UInt8) : e.pieceSize (.raw bytes) = bytes.length := rfl

@[simp] theorem pieceSize_distance (target : Nat) : e.pieceSize (.distance target) = 4 := rfl

@[simp] theorem pieceSize_label (l : Label) : e.pieceSize (.label l) = e.labelSize := rfl

end HostEncoding

namespace Threaded

/-- Threaded code is short. -/
theorem size_written_le_bytes (op : MicroOp) : encoding.size (encoding.written op) ≤ op.bytes := by
  cases op with
  | act a => cases a <;> simp [HostEncoding.written, encoding, pieces, action, MicroOp.bytes, Action.bytes, u16, u32, reg]
  | _ => simp [HostEncoding.written, encoding, pieces, MicroOp.bytes, u32, u64]

end Threaded

namespace X64

variable (e : HostEncoding)

@[simp] theorem pieceSize_u8 (b : UInt8) : e.pieceSize (u8 b) = 1 := rfl

@[simp] theorem pieceSize_imm (n : UInt32) : e.pieceSize (imm n) = 4 := length_littleEndian 4 _

@[simp] theorem pieceSize_imm64 (n : UInt64) : e.pieceSize (imm64 n) = 8 := length_littleEndian 8 _

@[simp] theorem size_cpuField (opcode : List UInt8) (reg : UInt8) (disp : Nat) :
    e.size (cpuField opcode reg disp) = opcode.length + 6 := by
  simp [cpuField]
  omega

theorem size_movImm (reg : UInt8) (value : UInt32) : e.size (movImm reg value) = if 8 ≤ reg then 6 else 5 := by
  unfold movImm
  split <;> simp

@[simp] theorem size_movReg (dst src : UInt8) : e.size (movReg dst src) = 3 := by
  simp [movReg]

@[simp] theorem size_jumpTo (target : Nat) : e.size (jumpTo target) = 5 := by
  simp [jumpTo]

@[simp] theorem size_call (h : Helper) : e.size (call h) = 15 := by
  simp [call]

@[simp] theorem size_callOrLeave (epilogue : Nat) (h : Helper) : e.size (callOrLeave epilogue h) = 31 := by
  simp [callOrLeave]

@[simp] theorem size_captureFlags (mask clear : UInt32) : e.size (captureFlags mask clear) = 29 := by
  simp [captureFlags]

@[simp] theorem size_exit (epilogue : Nat) (code : ExitCode) : e.size (exit epilogue code) = 10 := by
  simp [exit, size_movImm, rax]

@[simp] theorem size_frameField (disp : Nat) (value : UInt32) : e.size (frameField disp value) = 11 := by
  simp [frameField]

@[simp] theorem size_andImm (r : UInt8) (value : UInt32) : e.size (andImm r value) = 7 := by
  simp [andImm]

theorem size_widthMark_le (w : Width) : e.size (widthMark w) ≤ 1 := by
  cases w <;> simp [widthMark]

theorem size_movImm_le (reg : UInt8) (value : UInt32) : e.size (movImm reg value) ≤ 6 := by
  rw [size_movImm]
  split <;> omega

theorem size_lea_le (r : UInt8) (addr : Address) : e.size (lea r addr) ≤ 33 := by
  have hdisp := size_movImm_le e r addr.disp
  obtain ⟨seg, base, index, scale, disp, addr16⟩ := addr
  have hscaled : e.size (if trailingZeros scale = 0 then [] else [.raw [0xC1, modrm 3 4 rax, (trailingZeros scale).toUInt8]]) ≤ 3 := by
    split <;> simp
  cases base <;> cases index <;> cases addr16 <;> simp [lea] at hdisp hscaled ⊢ <;> omega

theorem size_alu_le (op : AluOp) (w : Width) (d s : UInt8) : e.size (alu op w d s) ≤ 42 := by
  have hmark := size_widthMark_le e w
  have hcarry : e.size (if op.readsCarry then cpuField [0x0F, 0xBA] 4 Cpu.layout.eflags ++ [u8 0] else []) ≤ 9 := by
    split <;> simp
  unfold alu
  simp only [HostEncoding.size_append, size_captureFlags, HostEncoding.size_cons, HostEncoding.pieceSize_raw, List.length_cons,
    List.length_nil, HostEncoding.size_nil]
  omega

theorem size_unary_le (op : UnaryOp) (w : Width) (d : UInt8) : e.size (unary op w d) ≤ 33 := by
  have hmark := size_widthMark_le e w
  cases op <;> simp [unary, unaryOpcode, unaryFlags] <;> omega

theorem size_action_le (epilogue : Nat) (a : Action) : e.size (action epilogue a) ≤ a.bytes := by
  cases a with
  | lea dst addr => exact size_lea_le e (tmpReg dst) addr
  | alu op w dst src => exact size_alu_le e op w (tmpReg dst) (tmpReg src)
  | unary op w dst => exact size_unary_le e op w (tmpReg dst)
  | loadImm dst value => exact size_movImm_le e (tmpReg dst) value
  | loadReg dst r =>
      have hopcode : (loadOpcode r.width).length ≤ 2 := by cases r.width <;> decide
      simp [action, Action.bytes]
      omega
  | storeReg r src =>
      have hmark := size_widthMark_le e r.width
      simp [action, Action.bytes]
      omega
  | _ => simp [action, Action.bytes, size_movImm, rsi, rdx, rcx]

theorem size_written_le_bytes (epilogue : Nat) (op : MicroOp) : (encoding epilogue).size ((encoding epilogue).written op) ≤ op.bytes := by
  cases op with
  | act a => exact size_action_le _ epilogue a
  | _ => simp [HostEncoding.written, encoding, pieces, MicroOp.bytes]

end X64

namespace MicroOp

/-- Most bytes of host code for micro-operations. -/
def codeBound (ops : List MicroOp) : Nat :=
  (ops.map bytes).sum

@[simp] theorem codeBound_nil : codeBound [] = 0 := rfl

@[simp] theorem codeBound_cons (op : MicroOp) (ops : List MicroOp) : codeBound (op :: ops) = op.bytes + codeBound ops := by
  simp [codeBound]

@[simp] theorem codeBound_append (ops ops' : List MicroOp) : codeBound (ops ++ ops') = codeBound ops + codeBound ops' := by
  simp [codeBound]

theorem codeSize_le_codeBound (emitter : Emitter) (ops : List MicroOp) : emitter.encoding.codeSize ops ≤ codeBound ops := by
  have hop : ∀ op, emitter.encoding.size (emitter.encoding.written op) ≤ op.bytes := by
    intro op
    unfold Emitter.encoding
    cases emitter.backend with
    | portable => exact Threaded.size_written_le_bytes op
    | native => exact X64.size_written_le_bytes emitter.epilogue op
  induction ops with
  | nil => exact Nat.zero_le _
  | cons op ops ih =>
      rw [HostEncoding.codeSize_cons, codeBound_cons]
      exact Nat.add_le_add (hop op) ih

end MicroOp

/-! ### Instructions -/

namespace Lowering

open MicroOp

variable (ctx : LoweringContext)

/-- Most bytes of host code for actions. -/
def actionBound (as : List Action) : Nat :=
  (as.map Action.bytes).sum

@[simp] theorem actionBound_nil : actionBound [] = 0 := rfl

@[simp] theorem actionBound_cons (a : Action) (as : List Action) : actionBound (a :: as) = a.bytes + actionBound as := by
  simp [actionBound]

@[simp] theorem actionBound_append (as bs : List Action) : actionBound (as ++ bs) = actionBound as + actionBound bs := by
  simp [actionBound]

@[simp] theorem codeBound_act (as : List Action) : codeBound (as.map .act) = actionBound as := by
  induction as with
  | nil => rfl
  | cons a as ih =>
      rw [List.map_cons, codeBound_cons, actionBound_cons, ih]
      rfl

theorem actionBound_address (a : Address) (t : Tmp) : actionBound (address a t) = 40 := rfl

/-- An operand that is not in memory takes at most a helper call. -/
theorem actionBound_read_le_of_ne {hotImm : Option UInt32} {op : Operand} {w : Width} {dst addrTmp : Tmp} (h : ∀ a, op ≠ .mem a) :
    actionBound (read hotImm op w dst addrTmp) ≤ 28 := by
  cases op with
  | reg r => simp [read, Action.bytes]
  | imm i => cases hotImm <;> simp [read, immediate, Action.bytes]
  | mem a => exact absurd rfl (h a)

theorem actionBound_read_le (hotImm : Option UInt32) (op : Operand) (w : Width) (dst addrTmp : Tmp) :
    actionBound (read hotImm op w dst addrTmp) ≤ 82 := by
  cases op with
  | mem a => simp [read, actionBound_address, Action.bytes]
  | reg r => exact (actionBound_read_le_of_ne (by simp)).trans (by decide)
  | imm i => exact (actionBound_read_le_of_ne (by simp)).trans (by decide)

theorem actionBound_write_le (op : Operand) (w : Width) (src addrTmp : Tmp) : actionBound (write op w src addrTmp) ≤ 42 := by
  cases op <;> simp [write, Action.bytes]

theorem actionBound_wrapStack_le (t : Tmp) : actionBound (wrapStack ctx t) ≤ 7 := by
  unfold wrapStack
  split <;> simp [Action.bytes]

theorem actionBound_push_le (w : Width) : actionBound (push ctx w) ≤ 82 := by
  have hwrap := actionBound_wrapStack_le ctx .t2
  simp only [push, actionBound_append, actionBound_cons, actionBound_nil, Action.bytes]
  omega

theorem actionBound_pop_le (w : Width) (extra : UInt32) : actionBound (pop ctx w extra) ≤ 82 := by
  have hwrap := actionBound_wrapStack_le ctx .t2
  simp only [pop, actionBound_append, actionBound_cons, actionBound_nil, Action.bytes]
  omega

theorem codeBound_charge_le (n : Nat) : codeBound (charge n) ≤ 11 := by
  unfold charge
  split <;> simp [MicroOp.bytes, Action.bytes]

theorem codeBound_bail_le (eip : UInt32) (count : Nat) (code : ExitCode) : codeBound (bail eip count code) ≤ 32 := by
  have hcharge := codeBound_charge_le count
  simp only [bail, codeBound_append, codeBound_cons, codeBound_nil, MicroOp.bytes, Action.bytes]
  omega

/-- The instruction pointer is set once. -/
theorem actionBound_publishActions_le (eip : UInt32) (as : List Action) :
    actionBound (publishActions eip as) ≤ actionBound as + 11 := by
  induction as with
  | nil => exact Nat.zero_le _
  | cons a as ih =>
      rw [publishActions]
      split
      · simp only [actionBound_cons, Action.bytes]
        omega
      · simp only [actionBound_cons]
        omega

/-- Of two operands at most one is in memory. -/
theorem actionBound_operands_le {hotImm : Option UInt32} {dst src : Operand} {w : Width} {t t' addrTmp : Tmp}
    (h : ∀ a b, dst = .mem a → src ≠ .mem b) :
    actionBound (read hotImm dst w t addrTmp) + actionBound (read hotImm src w t' addrTmp) ≤ 110 := by
  have hdst := actionBound_read_le hotImm dst w t addrTmp
  have hsrc := actionBound_read_le hotImm src w t' addrTmp
  cases dst with
  | mem a =>
      have hsrc' : actionBound (read hotImm src w t' addrTmp) ≤ 28 := actionBound_read_le_of_ne fun b => h a b rfl
      omega
  | reg r =>
      have hdst' : actionBound (read hotImm (.reg r) w t addrTmp) ≤ 28 := actionBound_read_le_of_ne (by simp)
      omega
  | imm i =>
      have hdst' : actionBound (read hotImm (.imm i) w t addrTmp) ≤ 28 := actionBound_read_le_of_ne (by simp)
      omega

theorem actionBound_actions_le {f : Fetched} (h : f.inst.kind.Regular) : actionBound (actions ctx f) ≤ 194 := by
  have hread := actionBound_read_le f.hotImm
  have hwrite := actionBound_write_le
  have hpush := actionBound_push_le ctx f.inst.width
  have hpop := actionBound_pop_le ctx f.inst.width
  unfold actions
  cases hkind : f.inst.kind with
  | mov dst src =>
      have hsrc := hread src f.inst.width .t0 .t2
      have hdst := hwrite dst f.inst.width .t0 .t2
      cases dst <;> simp only [actionBound_append, actionBound_address, actionBound_nil] <;> omega
  | alu op dst src =>
      rw [hkind] at h
      have hoperands : actionBound (read f.hotImm dst f.inst.width .t0 .t2) + actionBound (read f.hotImm src f.inst.width .t1 .t2) ≤ 110 :=
        actionBound_operands_le h.2
      have hresult : actionBound (if op.writesResult then write dst f.inst.width .t0 .t2 else []) ≤ 42 := by
        split
        · exact hwrite ..
        · exact Nat.zero_le _
      simp only [actionBound_append, actionBound_cons, actionBound_nil, Action.bytes]
      omega
  | unary op dst =>
      have hsrc := hread dst f.inst.width .t0 .t2
      have hdst := hwrite dst f.inst.width .t0 .t2
      simp only [actionBound_append, actionBound_cons, actionBound_nil, Action.bytes]
      omega
  | push src =>
      have hsrc := hread src f.inst.width .t0 .t2
      simp only [actionBound_append]
      omega
  | pop dst =>
      have hstack := hpop 0
      simp only [actionBound_append, actionBound_cons, actionBound_nil, Action.bytes]
      omega
  | call target =>
      simp only [actionBound_cons, Action.bytes]
      omega
  | ret extra =>
      have hstack := hpop extra.toUInt32
      simp only [actionBound_append, actionBound_cons, actionBound_nil, Action.bytes]
      omega
  | div signed src =>
      have hsrc := hread src f.inst.width .t0 .t2
      simp only [actionBound_append, actionBound_cons, actionBound_nil, Action.bytes]
      omega
  | iret =>
      dsimp only
      split <;> simp [Action.bytes]
  | _ => simp [Action.bytes]

/-- An instruction that ends the block uses the stack at most. -/
theorem actionBound_actions_le_of_ends {f : Fetched} (h : f.inst.endsBlock = true) : actionBound (actions ctx f) ≤ 89 := by
  have hpush := actionBound_push_le ctx f.inst.width
  have hpop := actionBound_pop_le ctx f.inst.width
  unfold Instruction.endsBlock at h
  unfold actions
  cases hkind : f.inst.kind
  case mov | alu | unary | lea | push | pop | div | nop | fpu =>
    rw [hkind] at h
    cases h
  case call target =>
    simp only [actionBound_cons, Action.bytes]
    omega
  case ret extra =>
    have hstack := hpop extra.toUInt32
    simp only [actionBound_append, actionBound_cons, actionBound_nil, Action.bytes]
    omega
  case iret =>
    dsimp only
    split <;> simp [Action.bytes]
  all_goals exact Nat.zero_le _

theorem codeBound_departure_le (count : Nat) (f : Fetched) : codeBound (departure ctx count f) ≤ 77 := by
  have hcharge := codeBound_charge_le (count + 1)
  have hbail := codeBound_bail_le f.inst.ip count
  unfold departure
  cases f.inst.kind with
  | iret =>
      have hleave := hbail .opcode
      dsimp only
      split
      · omega
      · simp only [codeBound_append, codeBound_cons, codeBound_nil, MicroOp.bytes]
        omega
  | other => exact (hbail .opcode).trans (by decide)
  | invalid => exact (hbail .opcodeFull).trans (by decide)
  | jmp target | jcc cond target | call target | ret extra | callback n =>
      simp only [codeBound_append, codeBound_cons, codeBound_nil, link, MicroOp.bytes, Action.bytes]
      omega
  | _ => exact Nat.zero_le _

/-- No instruction takes more than one that combines memory with an immediate that changes often. -/
theorem codeBound_instruction_le {f : Fetched} (h : f.inst.kind.Regular) (count : Nat) : codeBound (instruction ctx count f) ≤ 205 := by
  have hpublish := actionBound_publishActions_le f.inst.ip (actions ctx f)
  rw [instruction_eq, codeBound_append, codeBound_act]
  by_cases hends : f.inst.endsBlock = true
  · have hactions := actionBound_actions_le_of_ends ctx hends
    have hdeparture := codeBound_departure_le ctx count f
    omega
  · have hactions := actionBound_actions_le ctx h
    rw [departure_eq_nil ctx (Bool.eq_false_iff.2 hends), codeBound_nil]
    omega

theorem codeBound_instructions_le {insts : List Fetched} (h : ∀ f ∈ insts, f.inst.kind.Regular) (count : Nat) :
    codeBound (instructions ctx count insts) ≤ 205 * insts.length := by
  induction insts generalizing count with
  | nil => exact Nat.zero_le _
  | cons f insts ih =>
      have hfirst := codeBound_instruction_le ctx (h f List.mem_cons_self) count
      have hrest := ih (fun f' hf' => h f' (List.mem_cons_of_mem f hf')) (count + 1)
      rw [instructions, codeBound_append, List.length_cons]
      omega

theorem codeBound_ending_le (count : Nat) (stop : TraceEnd) : codeBound (ending ctx count stop) ≤ 34 := by
  have hcharge := codeBound_charge_le count
  unfold ending
  split
  · exact Nat.zero_le _
  · split
    · simp [MicroOp.bytes, Action.bytes]
    · simp only [codeBound_append, codeBound_cons, codeBound_nil, link, MicroOp.bytes, Action.bytes]
      omega
  · simp only [codeBound_append, codeBound_cons, codeBound_nil, link, MicroOp.bytes, Action.bytes]
    omega

theorem codeBound_block_le {t : Trace} (h : ∀ f ∈ t.insts, f.inst.kind.Regular) :
    codeBound (block ctx t) ≤ 65 + 205 * t.insts.length := by
  have hinsts := codeBound_instructions_le ctx h 0
  have hending := codeBound_ending_le ctx t.insts.length t.stop
  rw [block, codeBound_cons, codeBound_append]
  change 31 + _ ≤ _
  omega

end Lowering

/-! ### Traces -/

namespace Scan

variable {site : Site} {s s' : Scan}

/-- A trace has instructions as they are decoded. -/
theorem regular_of_take {n : Nat} {eip : UInt32} {t : Trace} (h : s.take site n eip = .ok (.ok t, s')) :
    ∀ f ∈ t.insts, f.inst.kind.Regular := by
  intro f hf
  obtain ⟨s₁, s₂, eip', -, hfetch⟩ := fetch_of_take (I := fun _ => True) (fun _ _ => trivial) trivial h f hf
  obtain ⟨s₃, hdecode, -⟩ := decodeAt_of_fetch hfetch
  obtain ⟨-, bytes, hbytes⟩ := decodeAt_some hdecode
  exact decode_regular hbytes

theorem Takes.length_le {n : Nat} {eip : UInt32} {r : Except CoreError Trace} (h : Takes site n eip s r s') {t : Trace}
    (hr : r = .ok t) : t.insts.length ≤ n + 1 := by
  induction h generalizing t with
  | scarce => cases hr
  | missing =>
      cases hr
      exact Nat.zero_le _
  | terminal =>
      cases hr
      exact Nat.le_add_left ..
  | full =>
      cases hr
      exact le_rfl
  | @more _ _ _ _ _ _ r _ _ _ ih =>
      cases r with
      | error => cases hr
      | ok t =>
          cases hr
          exact Nat.succ_le_succ (ih rfl)

end Scan

namespace Compilation

variable {k : Compilation} {log : List Compilation}

theorem regular_trace : ∀ f ∈ k.trace.insts, f.inst.kind.Regular := by
  unfold trace
  split
  · rename_i hout
    exact Scan.regular_of_take hout
  · simp

theorem length_trace_le : k.trace.insts.length ≤ Compile.limit k.scan.cache.settings + 1 := by
  unfold trace
  split
  · rename_i hout
    exact (Scan.take_cases hout).length_le rfl
  · exact Nat.zero_le _

/-- The code of a block, on hosts of either kind, in terms of the number of its instructions. -/
theorem codeSize_ops_le (emitter : Emitter) (k : Compilation) :
    emitter.encoding.codeSize k.ops ≤ 65 + 205 * k.trace.insts.length :=
  (MicroOp.codeSize_le_codeBound emitter k.ops).trans (Lowering.codeBound_block_le _ regular_trace)

/-- The span that is opened for a block has room for the largest one. -/
theorem maxBlockSize_le_room (hc : k.cache.Sound) : k.cache.settings.maxBlockSize ≤ k.room := by
  have hopened := opened_spec hc
  have hroom := hopened.room
  rw [hopened.shrinks.same.settings] at hroom
  unfold room capacity
  dsimp only
  split <;> omega

end Compilation

namespace Engine

variable {σ : Type} {p : Platform σ} {e : Engine σ} {phase : Phase} {log : List Compilation} {record : List MonitorId}

/-- With at most 32 instructions to a block and spans of at least 8192 bytes, in every state that can be reached and for
every processor and memory, the code of a block takes no more than the least span, on hosts of either kind. The span that
is opened for it is as long, and the compilation gives an answer, which is never that the code is too long. -/
theorem never_overrun (hp : p.Confined .free) (h : Visits .free p e phase log record)
    (hinsts : e.cache.settings.maxInstructions ≤ 32) (hsize : 8192 ≤ e.cache.settings.maxBlockSize) {k : Compilation}
    (hcache : k.cache = e.cache) (hcode : k.code = e.code) (hpending : k.Pending) :
    (∀ emitter : Emitter, emitter.encoding.codeSize k.ops ≤ e.cache.settings.maxBlockSize) ∧
    e.cache.settings.maxBlockSize ≤ k.room ∧
    (∃ code', k.emission = .ok (.ok (k.code.emitter.encoding.codeSize k.ops), code')) ∧
    ∃ r mem' c' code', k.result = .ok (r, mem', c', code') ∧ ∀ written capacity, r ≠ .error (.overrun written capacity) := by
  have hhoused : Housed log e.cache e.code := (h.keeps (Housed.upkeep _ fun _ => True) hp fun _ _ => trivial).1
  obtain ⟨l, hl, -⟩ := h.lineup hp
  rw [← hcache, ← hcode] at hhoused
  rw [← hcache] at hl hinsts hsize ⊢
  have hlength : k.trace.insts.length ≤ 32 := by
    have hlimit := k.length_trace_le
    have hsettings : k.scan.cache.settings = k.cache.settings := (hpending.sited hhoused.sound).off.settings
    rw [hsettings, Compile.limit] at hlimit
    omega
  have hbound : ∀ emitter : Emitter, emitter.encoding.codeSize k.ops ≤ k.cache.settings.maxBlockSize := by
    intro emitter
    calc emitter.encoding.codeSize k.ops ≤ 65 + 205 * k.trace.insts.length := k.codeSize_ops_le emitter
      _ ≤ 65 + 205 * 32 := by gcongr
      _ ≤ k.cache.settings.maxBlockSize := by omega
  have hroom := Compilation.maxBlockSize_le_room hhoused.sound
  obtain ⟨code', hemission⟩ := Compilation.exists_emission_codeSize hhoused
  obtain ⟨r, mem', c', code₁, hr⟩ := Compilation.exists_result hpending hhoused hl
  refine ⟨hbound, hroom, ⟨code', hemission⟩, r, mem', c', code₁, hr, fun written capacity herr => ?_⟩
  obtain ⟨t, s, written', code₂, -, hemit, hlong⟩ := (hpending.overrun_iff hhoused hr).mp ⟨written, capacity, herr⟩
  rw [hemission] at hemit
  cases hemit
  have hfits := hbound k.code.emitter
  omega

/-- The least settings for which code is never too long, on a host that runs machine code. -/
def plainSettings : Settings :=
  { Machine.scantSettings with cacheSize := 16384, maxBlockSize := 8192, backend := .native }

/-- Additions to memory, as many as there are instructions in a block. -/
theorem never_overrun_additions :
    ∃ (e : Engine Interpreter) (phase : Phase) (log : List Compilation) (record : List MonitorId) (k : Compilation),
      Visits .free Interpreter.platform e phase log record ∧ e.cache.settings = plainSettings ∧ k.cache = e.cache ∧
        k.code = e.code ∧ k.mem = Machine.onePage 0 [] ∧ k.Pending ∧
        (∀ emitter : Emitter, emitter.encoding.codeSize k.ops ≤ 8192) ∧
        ∃ r mem' c' code', k.result = .ok (r, mem', c', code') ∧ ∀ written capacity, r ≠ .error (.overrun written capacity) := by
  have henabled : ∃ core', (⟨plainSettings, none, false, {}⟩ : Core).enable true = .ok core' := by
    have hsome : ((⟨plainSettings, none, false, {}⟩ : Core).enable true).toOption.isSome = true := by decide +kernel
    generalize Core.enable _ true = out at hsome ⊢
    cases out with
    | error err => cases hsome
    | ok core' => exact ⟨core', rfl⟩
  obtain ⟨core', henable⟩ := henabled
  obtain ⟨code, -, -, hr⟩ := Machine.enable_spec rfl henable
  have hbegins : Regime.free.begins (Machine.onePage 0 []) := trivial
  have hvisit : Visits .free Interpreter.platform _ .lookup [] [] := .start rfl henable hr .flat32 hbegins {}
  have hnone : (Cache.create plainSettings code.base Arena.blocksStart code.stubs.exits).monitorOf 0 = none := by
    simp [monitorOf, Cache.create]
  have hresolve := Machine.resolve_onePage 0 [] (show pageOf Cpu.flat32.ipLinear = 0 by decide)
  have hfree : (Cache.create plainSettings code.base Arena.blocksStart code.stubs.exits).freeMonitors = [0, 1] := rfl
  have hpage := Machine.codePage_of_free hresolve rfl hnone hfree true
  generalize hwatched : Cache.watch _ 0 (pageOf Cpu.flat32.ipLinear) PageFlag.ram true = c at hpage
  have hfind : c.find 0 (pageOffset Cpu.flat32.ipLinear) = none := by
    have hbuckets : (c.monitor 0).buckets = Array.replicate 3 [] := by
      rw [← hwatched]
      rfl
    simp only [Cache.find, Monitor.bucket, hbuckets, Array.getD_eq_getD_getElem?, Array.getElem?_replicate]
    split <;> rfl
  have hsettings : c.settings = plainSettings := by
    rw [← hwatched]
    rfl
  have hsearch := hvisit.search hpage
  have hdue : afterSearch c .flat32 (.ok (some 0)) = .create 0 := if_pos hfind
  obtain ⟨-, hready⟩ := hsearch.keeps (Housed.upkeep _ fun _ => True) (Interpreter.platform_confined _) fun _ _ => trivial
  change Ready _ (afterSearch c .flat32 (.ok (some 0))) at hready
  rw [hdue] at hready
  have hinsts : c.settings.maxInstructions ≤ 32 := by
    rw [hsettings]
    decide
  have hsize : c.settings.maxBlockSize = 8192 := by rw [hsettings]; rfl
  obtain ⟨hbound, -, -, hresult⟩ :=
    never_overrun (Interpreter.platform_confined _) hsearch hinsts hsize.ge rfl rfl hready
  exact ⟨_, _, _, _, _, hsearch, hsettings, rfl, rfl, rfl, hready, fun emitter => (hbound emitter).trans hsize.le, hresult⟩

end Engine

end Recompiler
