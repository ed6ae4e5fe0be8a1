import Recompiler.Proofs.Code.Points
import Recompiler.Proofs.Compile.Operands

/-! What a block charges. The micro-operations of a block are the entry, the actions of its instructions, one charge for
those that it completes, and what leaves. Nothing but the charge changes the cycles: wherever a pass through the block
stands, they are those that it began with, or less by the charge. -/

namespace Recompiler

open MicroOp Scan

/-! ### Actions that leave the cycles alone -/

/-- Whether an action has nothing to do with the cycles. -/
def Action.free : Action → Bool
  | enter _ | subCycles _ => false
  | _ => true

/-- A call of a helper that completes leaves the cycles alone, and one that gives up has one of two exit codes. -/
def HelperCall.Tame {ε α : Type} (f : HelperCall ε α) : Prop :=
  ∀ cpu env r cpu' env', f cpu env = .ok (r, cpu', env') →
    match r with
    | .ok _ => cpu'.cycles = cpu.cycles
    | .error code => code = .normal ∨ code = .smcBlock

theorem HelperCall.Tame.afterCall {ε : Type} {f : HelperCall ε Unit} (hf : HelperCall.Tame f) {cpu : Cpu} {env : ε}
    {temps : Vector UInt32 3} {running callback : UInt32} {r : Option ExitCode} {s' : Activation ε}
    (hr : (f cpu env).map (Action.afterCall temps running callback) = .ok (r, s')) :
    (r = none → s'.cpu.cycles = cpu.cycles) ∧ ∀ code, r = some code → code = .normal ∨ code = .smcBlock := by
  cases hcall : f cpu env with
  | error abort =>
      rw [hcall] at hr
      cases hr
  | ok out =>
      obtain ⟨r₁, cpu₁, env₁⟩ := out
      rw [hcall] at hr
      have hout := hf _ _ _ _ _ hcall
      cases r₁ with
      | ok _ =>
          cases hr
          exact ⟨fun _ => hout, by simp⟩
      | error code =>
          cases hr
          refine ⟨by simp, fun code' hcode => ?_⟩
          cases hcode
          exact hout

namespace BlockEnv

variable {σ : Type} (p : Platform σ)

theorem pageFault_tame {α : Type} (fault : PageFault) : HelperCall.Tame (pageFault p fault : HelperCall (BlockEnv σ) α) := by
  rintro cpu ⟨bus, host, stats⟩ r cpu' env' hr
  cases hr
  exact .inl rfl

theorem load_tame (linear : UInt32) (w : Width) : HelperCall.Tame (load p linear w) := by
  intro cpu env r cpu' env' hr
  unfold load at hr
  cases hload : env.bus.mem.loadLinear linear w with
  | ok value =>
      simp only [hload] at hr
      cases hr
      rfl
  | error fault =>
      simp only [hload] at hr
      exact pageFault_tame p fault _ _ _ _ _ hr

theorem store_tame (linear : UInt32) (w : Width) (value : UInt32) (running : Option BlockId) :
    HelperCall.Tame (store p linear w value running) := by
  rintro cpu ⟨bus, host, stats⟩ r cpu' env' hr
  unfold store at hr
  dsimp only at hr
  split at hr
  · exact pageFault_tame p _ _ _ _ _ _ hr
  · cases hr
    exact .inr rfl
  · cases hr
    rfl

theorem divide_tame (w : Width) (signed : Bool) (divisor : UInt32) : HelperCall.Tame (divide p w signed divisor) := by
  rintro cpu ⟨bus, host, stats⟩ r cpu' env' hr
  unfold divide at hr
  cases hdiv : cpu.divide w signed divisor with
  | none =>
      simp only [hdiv] at hr
      cases hr
      exact .inl rfl
  | some cpu₁ =>
      simp only [hdiv] at hr
      cases hr
      obtain ⟨_, -, rfl⟩ := Option.map_eq_some_iff.mp hdiv
      rfl

/-- The interpreter is given one cycle, and the block gets its own back. -/
theorem interpret_tame (nextEip : UInt32) (running : Option BlockId) : HelperCall.Tame (interpret p nextEip running) := by
  rintro cpu ⟨bus, host, stats⟩ r cpu' env' hr
  unfold interpret at hr
  dsimp only at hr
  cases hrun : p.runNormal ⟨{ cpu with cycles := 1 }, bus, host⟩ with
  | error abort =>
      simp only [hrun] at hr
      cases hr
  | ok out =>
      simp only [hrun] at hr
      cases running with
      | none =>
          dsimp only at hr
          split at hr <;> cases hr <;> first | rfl | exact .inl rfl
      | some id =>
          dsimp only at hr
          split at hr
          · cases hr
          · split at hr <;> cases hr <;> first | rfl | exact .inl rfl

theorem iret_tame (w : Width) : HelperCall.Tame (iret p w) := by
  intro cpu env r cpu' env' hr
  unfold iret at hr
  cases hpop : popValues cpu env.bus.mem w 3 (cpu.reg cpu.stackReg) with
  | error fault =>
      simp only [hpop] at hr
      exact pageFault_tame p fault _ _ _ _ _ hr
  | ok out =>
      simp only [hpop] at hr
      cases hr
      rfl

end BlockEnv

variable {σ : Type} {p : Platform σ}

/-- What a free action does to the cycles, and how it may leave. -/
theorem Action.perform_free {a : Action} (ha : a.free = true) {s s' : Activation (BlockEnv σ)} {r : Option ExitCode}
    (hact : a.perform (BlockEnv.helpers p) s = .ok (r, s')) :
    (r = none → s'.cpu.cycles = s.cpu.cycles) ∧ ∀ code, r = some code → code = .normal ∨ code = .smcBlock := by
  obtain ⟨cpu, env, temps, running, callback⟩ := s
  unfold perform at hact
  cases a with
  | enter b => cases ha
  | subCycles n => cases ha
  | load dst addr w =>
      dsimp only at hact
      split at hact
      · cases hact
      · rename_i hcall
        cases hact
        exact ⟨fun _ => BlockEnv.load_tame p _ _ _ _ _ _ _ hcall, by simp⟩
      · rename_i hcall
        cases hact
        refine ⟨by simp, fun code' hcode => ?_⟩
        cases hcode
        exact BlockEnv.load_tame p _ _ _ _ _ _ _ hcall
  | store addr src w => exact (BlockEnv.store_tame p _ _ _ _).afterCall hact
  | div w signed divisor => exact (BlockEnv.divide_tame p _ _ _).afterCall hact
  | interpret nextEip => exact (BlockEnv.interpret_tame p _ _).afterCall hact
  | iret w => exact (BlockEnv.iret_tame p _).afterCall hact
  | _ =>
      cases hact
      exact ⟨fun _ => rfl, by simp⟩

theorem Action.Done.cycles {as : List Action} (has : ∀ a ∈ as, a.free = true) {s s' : Activation (BlockEnv σ)}
    (hdone : Action.Done (BlockEnv.helpers p) as s s') : s'.cpu.cycles = s.cpu.cycles := by
  apply hdone.keeps (I := fun t => t.cpu.cycles = s.cpu.cycles) rfl
  intro a ha t t' hact ht
  exact ((Action.perform_free (has a ha) hact).1 rfl).trans ht

/-- A run of host code that was charged. -/
def Activation.charged (s : Activation (BlockEnv σ)) (n : Nat) : Activation (BlockEnv σ) :=
  { s with cpu := { s.cpu with cycles := s.cpu.cycles - n.toUInt32.toInt32 } }

namespace MicroOp

/-- Where only free actions are left, a pass keeps the cycles. -/
theorem Comes.cycles {as : List Action} {last : List MicroOp} (hlast : ∀ a, .act a ∈ last → a.free = true)
    {point point' : Point (BlockEnv σ)} (hcomes : Comes (BlockEnv.helpers p) (as.map .act ++ last) point point')
    (hpoint : point.1 <:+ last) : point'.2.cpu.cycles = point.2.cpu.cycles := by
  induction hcomes with
  | refl => rfl
  | tail hcomes hpass ih =>
      have hsuffix := Comes.suffix hcomes hpoint
      cases hpass with
      | act hact => exact ((Action.perform_free (hlast _ (hsuffix.mem List.mem_cons_self)) hact).1 rfl).trans ih
      | jump | pass | bind => exact ih

variable {whole rest rest' last : List MicroOp} {s s' : Activation (BlockEnv σ)} {op : MicroOp}

/-- A pass stands at the entry of a block, or has entered it with cycles left. -/
theorem Comes.of_enter {id : UInt32} (hcomes : Comes (BlockEnv.helpers p) whole (.act (.enter id) :: rest, s) (op :: rest', s')) :
    op = .act (.enter id) ∧ s' = s ∨
      0 < s.cpu.cycles ∧ Comes (BlockEnv.helpers p) whole (rest, { s with running := id }) (op :: rest', s') := by
  rcases hcomes.cases_head with heq | ⟨point, hpass, hcomes'⟩
  · obtain ⟨hlist, rfl⟩ := Prod.mk.inj heq
    exact .inl ⟨(List.cons.inj hlist).1.symm, rfl⟩
  · right
    cases hpass with
    | act hact =>
        unfold Action.perform at hact
        dsimp only at hact
        split at hact
        · cases hact
        · rename_i hcycles
          cases hact
          exact ⟨Int32.not_le.mp hcycles, hcomes'⟩

/-- A pass stands at the charge of a block, or is charged. -/
theorem Comes.of_charge {n : Nat} (hcomes : Comes (BlockEnv.helpers p) whole (Lowering.charge n ++ last, s) (op :: rest', s')) :
    op = .act (.subCycles n.toUInt32) ∧ s' = s ∨ Comes (BlockEnv.helpers p) whole (last, s.charged n) (op :: rest', s') := by
  unfold Lowering.charge at hcomes
  split at hcomes
  · rename_i hn
    subst hn
    have hnone : s.charged 0 = s := by simp [Activation.charged]
    exact .inr (hnone.symm ▸ hcomes)
  · rcases hcomes.cases_head with heq | ⟨point, hpass, hcomes'⟩
    · obtain ⟨hlist, rfl⟩ := Prod.mk.inj heq
      exact .inl ⟨(List.cons.inj hlist).1.symm, rfl⟩
    · cases hpass with
      | act hact =>
          cases hact
          exact .inr hcomes'

/-- A pass stands at the entry of a block, before its charge, or behind it. Up to the charge the cycles are those at the entry;
then they are less by the charge, all actions of the instructions are done, and the pass is about to leave. -/
theorem Comes.charged {id : UInt32} {as : List Action} {n : Nat} (has : ∀ a ∈ as, a.free = true)
    (hlast : ∀ a, .act a ∈ last → a.free = true)
    (hwhole : whole = .act (.enter id) :: (as.map .act ++ (Lowering.charge n ++ last)))
    (hcomes : Comes (BlockEnv.helpers p) whole (whole, s) (op :: rest, s')) :
    op = .act (.enter id) ∧ s' = s ∨
      0 < s.cpu.cycles ∧
        (s'.cpu.cycles = s.cpu.cycles ∧ (∃ a ∈ .subCycles n.toUInt32 :: as, op = .act a) ∨
          s'.cpu.cycles = s.cpu.cycles - n.toUInt32.toInt32 ∧ op ∈ last ∧
            ∃ s₁, Action.Done (BlockEnv.helpers p) as { s with running := id } s₁) := by
  rcases Comes.of_enter (hwhole ▸ hcomes) with hentry | ⟨hcycles, hcomes⟩
  · exact .inl hentry
  refine .inr ⟨hcycles, ?_⟩
  rcases hcomes.of_acts with ⟨before, a, after, rfl, rfl, -, hdone⟩ | ⟨s₁, hdone, hcomes⟩
  · exact .inl ⟨hdone.cycles fun b hb => has b (by simp [hb]), a, by simp, rfl⟩
  rcases hcomes.of_charge with ⟨rfl, rfl⟩ | hcomes
  · exact .inl ⟨hdone.cycles has, _, List.mem_cons_self, rfl⟩
  obtain ⟨charges, hcharge⟩ : ∃ charges : List Action, Lowering.charge n = charges.map .act := by
    unfold Lowering.charge
    split
    · exact ⟨[], rfl⟩
    · exact ⟨[_], rfl⟩
  have heq : whole = (.enter id :: as ++ charges).map .act ++ last := by simp [hwhole, hcharge]
  rw [← hwhole, heq] at hcomes
  right
  refine ⟨?_, (hcomes.suffix List.suffix_rfl).mem List.mem_cons_self, s₁, hdone⟩
  calc s'.cpu.cycles = (s₁.charged n).cpu.cycles := hcomes.cycles hlast List.suffix_rfl
    _ = s.cpu.cycles - n.toUInt32.toInt32 := by rw [Activation.charged, hdone.cycles has]

end MicroOp

/-! ### The parts of a block -/

namespace Lowering

variable (ctx : LoweringContext)

/-- Whether an instruction is left to the interpreter. -/
def handsOver (f : Fetched) : Bool :=
  match f.inst.kind with
  | .other | .invalid => true
  | .iret => ctx.protectedMode
  | _ => false

/-- Number of instructions that are not left to the interpreter. -/
def completed (insts : List Fetched) : Nat :=
  insts.countP fun f => !handsOver ctx f

/-- What an instruction does before it leaves, with the instruction pointer set for its helpers. -/
def work (f : Fetched) : List Action :=
  publishActions f.inst.ip (actions ctx f)

theorem free_of_discreet {a : Action} (ha : a.callsHelper = false → a.blind = true) : a.free = true := by
  cases a with
  | enter b => cases ha rfl
  | subCycles n => cases ha rfl
  | _ => rfl

theorem free_actions (f : Fetched) : ∀ a ∈ actions ctx f, a.free = true := by
  by_cases hret : ∃ extra, f.inst.kind = .ret extra
  · obtain ⟨extra, hkind⟩ := hret
    have hactions : actions ctx f = pop ctx f.inst.width extra.toUInt32 ++ [.storeEip .t0] := by simp [actions, hkind]
    rw [hactions, List.forall_mem_append]
    refine ⟨fun a ha => free_of_discreet (discreet_pop ctx _ _ a ha), ?_⟩
    intro a ha
    rw [List.mem_singleton.mp ha]
    rfl
  · intro a ha
    exact free_of_discreet (discreet_actions ctx (fun extra hkind => hret ⟨extra, hkind⟩) a ha)

theorem free_work (f : Fetched) : ∀ a ∈ work ctx f, a.free = true := by
  have hfree := free_actions ctx f
  unfold work
  generalize actions ctx f = as at hfree
  induction as with
  | nil => exact hfree
  | cons a as ih =>
      rw [publishActions]
      split
      · exact List.forall_mem_cons.2 ⟨rfl, hfree⟩
      · exact List.forall_mem_cons.2 ⟨hfree a List.mem_cons_self, ih fun b hb => hfree b (List.mem_cons_of_mem a hb)⟩

theorem handsOver_of_not_endsBlock {f : Fetched} (h : f.inst.endsBlock = false) : handsOver ctx f = false := by
  unfold Instruction.endsBlock at h
  unfold handsOver
  cases hkind : f.inst.kind
  case iret | other | invalid =>
    rw [hkind] at h
    cases h
  all_goals rfl

/-- What stands behind the charge of a block: it leaves to the interpreter or not. -/
structure Takeoff (handed : Bool) (last : List MicroOp) : Prop where
  free : ∀ a, .act a ∈ last → a.free = true
  leaves : ∀ op ∈ last, op.leaves = true → (handed = true ↔ op = .exit .opcode ∨ op = .exit .opcodeFull)

/-- An instruction that ends a block charges those before it, and itself if it is not left to the interpreter. -/
theorem departure_charges {f : Fetched} (h : f.inst.endsBlock = true) (count : Nat) :
    ∃ last, departure ctx count f = charge (count + completed ctx [f]) ++ last ∧ Takeoff (handsOver ctx f) last := by
  unfold Instruction.endsBlock at h
  unfold departure completed handsOver bail
  cases hkind : f.inst.kind
  all_goals
    rw [hkind] at h
    dsimp only at h ⊢
  case mov | alu | unary | lea | push | pop | div | nop | fpu => cases h
  case iret =>
    cases ctx.protectedMode
    all_goals
      refine ⟨_, by simp [hkind]; rfl, ?_, ?_⟩
      all_goals simp [Action.free, leaves]
  all_goals
    refine ⟨_, by simp [hkind]; rfl, ?_, ?_⟩
    all_goals simp [Action.free, leaves, Lowering.link]

/-- A trace that no instruction ends charges all of it. Only if there is nothing in it is the interpreter called. -/
theorem ending_charges (count : Nat) {stop : TraceEnd} (h : stop ≠ .terminal) :
    ∃ last handed, ending ctx count stop = charge count ++ last ∧ Takeoff handed last ∧
      (handed = true ↔ count = 0 ∧ ∃ eip, stop = .unfetchable eip) := by
  cases stop with
  | terminal => exact absurd rfl h
  | full eip => exact ⟨_, false, rfl, ⟨by simp [Action.free, Lowering.link], by simp [leaves, Lowering.link]⟩, by simp⟩
  | unfetchable eip =>
      rw [ending]
      split
      · rename_i hcount
        subst hcount
        exact ⟨_, true, rfl, ⟨by simp [Action.free], by simp [leaves]⟩, by simp⟩
      · rename_i hcount
        exact ⟨_, false, rfl, ⟨by simp [Action.free, Lowering.link], by simp [leaves, Lowering.link]⟩, by simp [hcount]⟩

/-- The instructions of a trace work one after the other, and there is one charge for those that are completed. -/
theorem instructions_charge {code32 : Bool} {eip : UInt32} {insts : List Fetched} {stop : TraceEnd}
    (h : Follows code32 eip insts stop) (count : Nat) :
    ∃ last handed, instructions ctx count insts ++ ending ctx (count + insts.length) stop =
        (insts.flatMap (work ctx)).map .act ++ (charge (count + completed ctx insts) ++ last) ∧ Takeoff handed last ∧
      (0 < count + insts.length → completed ctx insts + handed.toNat = insts.length) ∧
      (count = 0 → insts = [] → (∃ eip, stop = .unfetchable eip) → handed = true) := by
  induction insts generalizing eip count with
  | nil =>
      have hstop : stop ≠ .terminal := by
        rintro rfl
        rcases h with h | h <;> cases h
      obtain ⟨last, handed, hending, hlast, hhanded⟩ := ending_charges ctx count hstop
      refine ⟨last, handed, by simpa [instructions, completed] using hending, hlast, ?_,
        fun hcount _ hstop => hhanded.mpr ⟨hcount, hstop⟩⟩
      intro hcount
      cases handed with
      | false => rfl
      | true =>
          rw [(hhanded.mp rfl).1] at hcount
          exact absurd hcount (Nat.lt_irrefl 0)
  | cons f insts ih =>
      obtain ⟨-, hrest⟩ := h
      by_cases hends : f.inst.endsBlock = true
      · rw [if_pos hends] at hrest
        obtain ⟨rfl, rfl⟩ := hrest
        obtain ⟨last, hdeparture, hlast⟩ := departure_charges ctx hends count
        refine ⟨last, handsOver ctx f, ?_, hlast, fun _ => ?_, by simp⟩
        · simp [instructions, ending, instruction_eq, work, hdeparture]
        · cases hhanded : handsOver ctx f <;> simp [completed, hhanded]
      · rw [if_neg hends] at hrest
        obtain ⟨last, handed, hops, hlast, hcount, -⟩ := ih hrest (count + 1)
        have hlength : count + (f :: insts).length = count + 1 + insts.length := by
          rw [List.length_cons]
          omega
        have hstays : handsOver ctx f = false := handsOver_of_not_endsBlock ctx (Bool.eq_false_iff.2 hends)
        have hcompleted : completed ctx (f :: insts) = completed ctx insts + 1 := by simp [completed, hstays]
        refine ⟨last, handed, ?_, hlast, fun _ => ?_, by simp⟩
        · rw [hlength, instructions, instruction_eq, departure_eq_nil ctx (Bool.eq_false_iff.2 hends), List.append_nil,
            List.append_assoc, hops, List.flatMap_cons, List.map_append, List.append_assoc, hcompleted,
            show count + 1 + completed ctx insts = count + (completed ctx insts + 1) by omega]
          rfl
        · have := hcount (by omega)
          rw [hcompleted, List.length_cons]
          omega

/-- A block is its entry, the work of its instructions, one charge and what leaves. -/
theorem block_charges {code32 : Bool} {eip : UInt32} {t : Trace} (h : Follows code32 eip t.insts t.stop)
    (hnil : t.insts = [] → ∃ eip, t.stop = .unfetchable eip) :
    ∃ last handed, block ctx t =
        .act (.enter ctx.block.toUInt32) :: ((t.insts.flatMap (work ctx)).map .act ++ (charge (completed ctx t.insts) ++ last)) ∧
      Takeoff handed last ∧ (if t.insts = [] then handed = true else completed ctx t.insts + handed.toNat = t.insts.length) := by
  obtain ⟨last, handed, hops, hlast, hcount, hempty⟩ := instructions_charge ctx h 0
  refine ⟨last, handed, ?_, hlast, ?_⟩
  · rw [block]
    simpa using hops
  · split
    · rename_i hinsts
      exact hempty rfl hinsts (hnil hinsts)
    · rename_i hinsts
      apply hcount
      rw [Nat.zero_add]
      exact List.length_pos_iff.mpr hinsts

end Lowering

end Recompiler
