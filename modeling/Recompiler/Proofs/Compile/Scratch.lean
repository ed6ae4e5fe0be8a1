import Recompiler.Proofs.Code.Points
import Recompiler.Proofs.Compile.Operands
import Recompiler.Proofs.Guest.Bytes

/-! What lowered code depends on. Temporaries and the instruction pointer are set before they are used, in every instruction
anew, and a value counts up to the width of the operation that uses it. Runs of host code that differ only in what is not
used do the same. -/

namespace Recompiler

open MicroOp

/-! ### Values count up to the width of an operation -/

section Masks

variable (w : Width) (value : UInt32)

theorem Memory.write_and_mask (mem : Memory) (p : UInt32) : mem.write p w (value &&& w.mask) = mem.write p w value := by
  rw [write, write, w.split_and_mask]

theorem Cpu.setReg_and_mask (c : Cpu) (r : Reg) : c.setReg r (value &&& r.width.mask) = c.setReg r value := by
  obtain ⟨g, w, high⟩ := r
  have hmask : ∀ w : Width, value &&& w.mask &&& w.mask = value &&& w.mask := fun w => by rw [UInt32.and_assoc, UInt32.and_self]
  unfold setReg
  dsimp only
  split
  · exact congrArg (fun v => c.setGpr g ((c.gpr g &&& (0xFFFF00FF : UInt32)) ||| (v <<< (8 : UInt32)))) (hmask .w8)
  · rw [hmask]

theorem Arithmetic.alu_and_mask (op : AluOp) (a e : UInt32) : alu op w a (value &&& w.mask) e = alu op w a value e := by
  have hmask : value &&& w.mask &&& w.mask = value &&& w.mask := by rw [UInt32.and_assoc, UInt32.and_self]
  have hand : a &&& (value &&& w.mask) &&& w.mask = a &&& value &&& w.mask := by rw [UInt32.and_assoc, hmask, ← UInt32.and_assoc]
  have hor : (a ||| value &&& w.mask) &&& w.mask = (a ||| value) &&& w.mask := by
    apply UInt32.toNat_inj.mp
    simp only [UInt32.toNat_and, UInt32.toNat_or, Nat.and_or_distrib_right, Nat.and_assoc, Nat.and_self]
  have hxor : (a ^^^ value &&& w.mask) &&& w.mask = (a ^^^ value) &&& w.mask := by
    apply UInt32.toNat_inj.mp
    simp only [UInt32.toNat_and, UInt32.toNat_xor, Nat.and_xor_distrib_right, Nat.and_assoc, Nat.and_self]
  cases op with
  | add | adc => simp only [alu, add, hmask]
  | sub | sbb | cmp => simp only [alu, sub, hmask]
  | and | test => simp only [alu, logic, hand]
  | or => simp only [alu, logic, hor]
  | xor => simp only [alu, logic, hxor]

end Masks

namespace Width

theorem and_mask_w32 (value : UInt32) : value &&& Width.w32.mask = value := by
  apply UInt32.toNat_inj.mp
  rw [Width.toNat_and_mask]
  exact Nat.mod_eq_of_lt value.toNat_lt

end Width

/-- What two runs of host code are known to share, apart from registers and environment: the instruction pointer, and
temporaries up to a width. -/
structure Known where
  eip : Bool
  temp : Tmp → Option Width := fun _ => none

namespace Known

def put (κ : Known) (t : Tmp) (w : Width) : Known :=
  { κ with temp := fun t' => if t' = t then some w else κ.temp t' }

/-- Whether a temporary is known up to a width. -/
def has (κ : Known) (t : Tmp) (w : Width) : Bool :=
  κ.temp t == some .w32 || κ.temp t == some w

/-- What is known after an action, if it depends on nothing that is not known. -/
def after (κ : Known) : Action → Option Known
  | .enter _ | .interpret _ | .iret _ => if κ.eip then some κ else none
  | .loadImm dst _ | .loadPhys dst .. | .loadReg dst _ | .lea dst _ => some (κ.put dst .w32)
  | .storeReg r src => if κ.has src r.width then some κ else none
  | .mov dst src => if κ.has src .w32 then some (κ.put dst .w32) else none
  | .addImm dst _ | .andImm dst _ | .addSegBase dst _ | .unary _ _ dst => if κ.has dst .w32 then some κ else none
  | .alu _ w dst src => if κ.has dst .w32 ∧ κ.has src w then some κ else none
  | .load dst addr _ => if κ.eip ∧ κ.has addr .w32 then some (κ.put dst .w32) else none
  | .store addr src w => if κ.eip ∧ κ.has addr .w32 ∧ κ.has src w then some κ else none
  | .div _ _ divisor => if κ.eip ∧ κ.has divisor .w32 then some κ else none
  | .subCycles _ | .setCallback _ => some κ
  | .setEip _ => some { κ with eip := true }
  | .storeEip src => if κ.has src .w32 then some { κ with eip := true } else none

end Known

variable {ε : Type}

/-- Runs of host code that share what is known. -/
structure Activation.Agrees (κ : Known) (s s' : Activation ε) : Prop where
  env : s'.env = s.env
  running : s'.running = s.running
  callback : s'.callback = s.callback
  cpu : s'.cpu = { s.cpu with eip := s'.cpu.eip }
  eip : κ.eip = true → s'.cpu.eip = s.cpu.eip
  temp : ∀ t w, κ.has t w = true → s'.get t &&& w.mask = s.get t &&& w.mask

/-- Helpers store no more of a value than the width says. -/
def Helpers.Narrow (h : Helpers ε) : Prop :=
  ∀ linear w value, h.store linear w (value &&& w.mask) = h.store linear w value

/-- Runs of host code that differ in temporaries only. -/
def Activation.Alike (s s' : Activation ε) : Prop :=
  ∃ temps, s' = { s with temps }

/-- Results of actions that go on, leave or abort alike. -/
inductive Action.Matching (κ : Known) :
    (r r' : Except Abort (Option ExitCode × Activation ε)) → Prop
  | next {s s' : Activation ε} (h : s.Agrees κ s') : Matching κ (.ok (none, s)) (.ok (none, s'))
  | leave {code : ExitCode} {s s' : Activation ε} (h : s.Alike s') :
      Matching κ (.ok (some code, s)) (.ok (some code, s'))
  | abort {cause : Abort} : Matching κ (.error cause) (.error cause)

namespace Activation.Agrees

variable {κ κ' : Known} {s s' : Activation ε} {t : Tmp}

theorem refl (s : Activation ε) : Agrees κ s s :=
  ⟨rfl, rfl, rfl, rfl, fun _ => rfl, fun _ _ _ => rfl⟩

theorem get_eq (h : Agrees κ s s') (ht : κ.has t .w32 = true) : s'.get t = s.get t := by
  have htemp := h.temp t .w32 ht
  rwa [Width.and_mask_w32, Width.and_mask_w32] at htemp

theorem put (h : Agrees κ s s') (t : Tmp) {w : Width} {value value' : UInt32} (hvalue : value' &&& w.mask = value &&& w.mask) :
    Agrees (κ.put t w) (s.put t value) (s'.put t value') := by
  refine ⟨h.env, h.running, h.callback, h.cpu, h.eip, fun t' w' hhas => ?_⟩
  rw [get_put, get_put]
  unfold Known.has Known.put at hhas
  dsimp only at hhas
  by_cases ht : t' = t
  · rw [if_pos ht, Bool.or_eq_true, beq_iff_eq, beq_iff_eq] at hhas
    rw [if_pos ht.symm, if_pos ht.symm]
    rcases hhas with hw | hw
    · cases hw
      rw [Width.and_mask_w32, Width.and_mask_w32] at hvalue
      rw [hvalue]
    · cases hw
      exact hvalue
  · rw [if_neg ht] at hhas
    rw [if_neg (Ne.symm ht), if_neg (Ne.symm ht)]
    exact h.temp t' w' hhas

/-- With the same value in a temporary that is known, nothing less is known. -/
theorem put_known (h : Agrees κ s s') (t : Tmp) (value : UInt32) : Agrees κ (s.put t value) (s'.put t value) := by
  refine ⟨h.env, h.running, h.callback, h.cpu, h.eip, fun t' w' hhas => ?_⟩
  rw [get_put, get_put]
  split
  · rfl
  · exact h.temp t' w' hhas

/-- What a helper says, with the temporaries of either run. -/
theorem afterCall {cpu : Cpu} {env : ε} {temps temps' : Vector UInt32 3} {running callback : UInt32}
    (hs : Agrees κ ⟨cpu, env, temps, running, callback⟩ ⟨cpu, env, temps', running, callback⟩)
    (r : Except Abort (Except ExitCode Unit × Cpu × ε)) :
    Action.Matching κ (r.map (Action.afterCall temps running callback)) (r.map (Action.afterCall temps' running callback)) := by
  obtain cause | ⟨_ | _, cpu', env'⟩ := r
  · exact .abort
  · exact .leave ⟨temps', rfl⟩
  · exact .next ⟨rfl, rfl, rfl, rfl, fun _ => rfl, hs.temp⟩

/-- What is known says what an action does: it goes on, leaves or aborts alike. -/
theorem perform {h : Helpers ε} (hh : h.Narrow) (hs : Agrees κ s s') {a : Action} (ha : κ.after a = some κ') :
    Action.Matching κ' (a.perform h s) (a.perform h s') := by
  obtain ⟨cpu, env, temps, running, callback⟩ := s
  obtain ⟨eip, temps', rfl⟩ : ∃ eip temps', s' = ⟨{ cpu with eip }, env, temps', running, callback⟩ := by
    obtain ⟨cpu', env', temps', running', callback'⟩ := s'
    obtain ⟨henv, hrunning, hcallback, hcpu, -, -⟩ := hs
    dsimp only at henv hrunning hcallback hcpu
    rw [henv, hrunning, hcallback, hcpu]
    exact ⟨_, _, rfl⟩
  have hget {t : Tmp} (ht : κ.has t .w32 = true) : temps'[t.index] = temps[t.index] := hs.get_eq ht
  have hnarrow {t : Tmp} {w : Width} (ht : κ.has t w = true) : temps'[t.index] &&& w.mask = temps[t.index] &&& w.mask := hs.temp t w ht
  -- A helper sees the instruction pointer, which is then known.
  have heip : κ.eip = true → eip = cpu.eip := hs.eip
  cases a with
  | loadImm dst _ | loadPhys dst _ _ _ | loadReg dst _ | lea dst _ =>
      cases ha
      exact .next (hs.put dst rfl)
  | setCallback n | subCycles n =>
      cases ha
      exact .next ⟨rfl, rfl, rfl, rfl, hs.eip, hs.temp⟩
  | setEip eip =>
      cases ha
      exact .next ⟨rfl, rfl, rfl, rfl, fun _ => rfl, hs.temp⟩
  | enter b =>
      obtain ⟨hknown, ha⟩ := Option.ite_none_right_eq_some.mp ha
      cases ha
      obtain rfl := heip hknown
      unfold Action.perform
      dsimp only
      split
      · exact .leave ⟨temps', rfl⟩
      · exact .next ⟨rfl, rfl, rfl, rfl, fun _ => rfl, hs.temp⟩
  | storeReg r src =>
      obtain ⟨hsrc, ha⟩ := Option.ite_none_right_eq_some.mp ha
      cases ha
      unfold Action.perform
      dsimp only
      rw [← Cpu.setReg_and_mask temps'[src.index], hnarrow hsrc, Cpu.setReg_and_mask]
      exact .next ⟨rfl, rfl, rfl, rfl, hs.eip, hs.temp⟩
  | mov dst src =>
      obtain ⟨hsrc, ha⟩ := Option.ite_none_right_eq_some.mp ha
      cases ha
      unfold Action.perform
      dsimp only
      rw [hget hsrc]
      exact .next (hs.put dst rfl)
  | addImm dst value | andImm dst value | addSegBase dst seg =>
      obtain ⟨hdst, ha⟩ := Option.ite_none_right_eq_some.mp ha
      cases ha
      unfold Action.perform
      dsimp only
      rw [hget hdst]
      exact .next (hs.put_known dst _)
  | unary op w dst =>
      obtain ⟨hdst, ha⟩ := Option.ite_none_right_eq_some.mp ha
      cases ha
      unfold Action.perform
      dsimp only
      rw [hget hdst]
      have hput := hs.put_known dst (Arithmetic.unary op w temps[dst.index] cpu.eflags).1
      exact .next ⟨rfl, rfl, rfl, rfl, hput.eip, hput.temp⟩
  | alu op w dst src =>
      obtain ⟨⟨hdst, hsrc⟩, ha⟩ := Option.ite_none_right_eq_some.mp ha
      cases ha
      unfold Action.perform
      dsimp only
      rw [hget hdst, ← Arithmetic.alu_and_mask w temps'[src.index], hnarrow hsrc, Arithmetic.alu_and_mask]
      have hput := hs.put_known dst (Arithmetic.alu op w temps[dst.index] temps[src.index] cpu.eflags).1
      split
      · exact .next ⟨rfl, rfl, rfl, rfl, hput.eip, hput.temp⟩
      · exact .next ⟨rfl, rfl, rfl, rfl, hs.eip, hs.temp⟩
  | load dst addr w =>
      obtain ⟨⟨hknown, haddr⟩, ha⟩ := Option.ite_none_right_eq_some.mp ha
      cases ha
      obtain rfl := heip hknown
      unfold Action.perform
      dsimp only
      rw [hget haddr]
      obtain cause | ⟨_ | value, cpu', env'⟩ := h.load temps[addr.index] w cpu env
      · exact .abort
      · exact .leave ⟨temps', rfl⟩
      · have hput := hs.put dst (rfl : value &&& Width.w32.mask = _)
        exact .next ⟨rfl, rfl, rfl, rfl, fun _ => rfl, hput.temp⟩
  | store addr src w =>
      obtain ⟨⟨hknown, haddr, hsrc⟩, ha⟩ := Option.ite_none_right_eq_some.mp ha
      cases ha
      obtain rfl := heip hknown
      unfold Action.perform
      dsimp only
      rw [hget haddr, ← hh _ w temps'[src.index], hnarrow hsrc, hh]
      exact hs.afterCall _
  | div w signed divisor =>
      obtain ⟨⟨hknown, hdivisor⟩, ha⟩ := Option.ite_none_right_eq_some.mp ha
      cases ha
      obtain rfl := heip hknown
      unfold Action.perform
      dsimp only
      rw [hget hdivisor]
      exact hs.afterCall _
  | interpret _ | iret _ =>
      obtain ⟨hknown, ha⟩ := Option.ite_none_right_eq_some.mp ha
      cases ha
      obtain rfl := heip hknown
      exact hs.afterCall _
  | storeEip src =>
      obtain ⟨hsrc, ha⟩ := Option.ite_none_right_eq_some.mp ha
      cases ha
      unfold Action.perform
      dsimp only
      rw [hget hsrc]
      exact .next ⟨rfl, rfl, rfl, rfl, fun _ => rfl, hs.temp⟩

theorem mono (hs : Agrees κ s s') (heip : κ'.eip = true → κ.eip = true) (htemp : ∀ t w, κ'.has t w = true → κ.has t w = true) :
    Agrees κ' s s' :=
  ⟨hs.env, hs.running, hs.callback, hs.cpu, fun h => hs.eip (heip h), fun t w h => hs.temp t w (htemp t w h)⟩

theorem alike (hs : Agrees κ s s') (heip : κ.eip = true) : s.Alike s' := by
  obtain ⟨cpu', env', temps', running', callback'⟩ := s'
  obtain ⟨henv, hrunning, hcallback, hcpu, hsame, -⟩ := hs
  dsimp only at henv hrunning hcallback hcpu hsame
  rw [hsame heip] at hcpu
  rw [henv, hrunning, hcallback, hcpu]
  exact ⟨_, rfl⟩

end Activation.Agrees

/-- Departures that differ in temporaries only. -/
inductive Departure.Alike : (d d' : Departure ε) → Prop
  | exit {code : ExitCode} {s s' : Activation ε} (h : s.Alike s') : Alike (.exit code s) (.exit code s')
  | link {entry : UInt64} {s s' : Activation ε} (h : s.Alike s') : Alike (.link entry s) (.link entry s')
  | abort {cause : Abort} : Alike (.abort cause) (.abort cause)

/-! ### Lists of actions -/

/-- What is known after actions. -/
def Known.afterAll (κ : Known) : List Action → Option Known
  | [] => some κ
  | a :: as => (κ.after a).bind fun κ => κ.afterAll as

variable {h : Helpers ε} {κ κ' : Known} {s s' : Activation ε} {as as' : List Action}

namespace Action.Done

theorem append {bs : List Action} {s₁ s₂ : Activation ε} (hdone : Done h as s s₁) (hdone' : Done h bs s₁ s₂) : Done h (as ++ bs) s s₂ := by
  induction hdone with
  | nil => exact hdone'
  | cons hact _ ih => exact .cons hact (ih hdone')

theorem performs {whole rest : List MicroOp} {s₁ : Activation ε} {d : Departure ε} (hdone : Done h as s s₁)
    (hperf : Performs h whole rest s₁ d) : Performs h whole (as.map .act ++ rest) s d :=
  performs_acts_iff.mpr (.inr ⟨s₁, hdone, hperf⟩)

theorem comes {s₁ : Activation ε} (hdone : Done h as s s₁) (whole rest : List MicroOp) :
    Comes h whole (as.map .act ++ rest, s) (rest, s₁) := by
  induction hdone with
  | nil => exact .refl
  | cons hact _ ih => exact .head (.act hact) ih

end Action.Done

/-- Where one list of actions goes, the other one goes too: to its end, or out of the block. -/
def Tracks (h : Helpers ε) (as as' : List Action) (s s' : Activation ε) (κ : Known) : Prop :=
  ∀ whole rest d, Performs h whole (as.map .act ++ rest) s d →
    (∃ s₁ s₁', Action.Done h as s s₁ ∧ Action.Done h as' s' s₁' ∧ s₁.Agrees κ s₁' ∧ Performs h whole rest s₁ d) ∨
      ∃ d' : Departure ε, d.Alike d' ∧ ∀ whole' rest', Performs h whole' (as'.map .act ++ rest') s' d'

namespace Tracks

theorem nil (hs : s.Agrees κ s') : Tracks h [] [] s s' κ := fun _ _ _ hperf => .inl ⟨s, s', .nil, .nil, hs, hperf⟩

theorem cons {a a' : Action} (hmatch : Action.Matching κ (a.perform h s) (a'.perform h s'))
    (hrest : ∀ s₁ s₁', s₁.Agrees κ s₁' → Tracks h as as' s₁ s₁' κ') : Tracks h (a :: as) (a' :: as') s s' κ' := by
  intro whole rest d hperf
  cases hperf with
  | step hact hperf =>
      rw [hact] at hmatch
      generalize hr : a'.perform h s' = r' at hmatch
      cases hmatch with
      | next hs =>
          rcases hrest _ _ hs _ _ _ hperf with ⟨s₁, s₁', hdone, hdone', hs₁, hperf⟩ | ⟨d', hd, hperf'⟩
          · exact .inl ⟨s₁, s₁', .cons hact hdone, .cons hr hdone', hs₁, hperf⟩
          · exact .inr ⟨d', hd, fun whole' rest' => .step hr (hperf' whole' rest')⟩
  | leave hact =>
      rw [hact] at hmatch
      generalize hr : a'.perform h s' = r' at hmatch
      cases hmatch with
      | leave hs => exact .inr ⟨_, .exit hs, fun whole' rest' => .leave hr⟩
  | abort hact =>
      rw [hact] at hmatch
      generalize hr : a'.perform h s' = r' at hmatch
      cases hmatch with
      | abort => exact .inr ⟨_, .abort, fun whole' rest' => .abort hr⟩

theorem append {bs bs' : List Action} (has : Tracks h as as' s s' κ)
    (hbs : ∀ s₁ s₁', Action.Done h as s s₁ → s₁.Agrees κ s₁' → Tracks h bs bs' s₁ s₁' κ') :
    Tracks h (as ++ bs) (as' ++ bs') s s' κ' := by
  intro whole rest d hperf
  rw [List.map_append, List.append_assoc] at hperf
  rcases has _ _ _ hperf with ⟨s₁, s₁', hdone, hdone', hs₁, hperf⟩ | ⟨d', hd, hperf'⟩
  · rcases hbs s₁ s₁' hdone hs₁ _ _ _ hperf with ⟨s₂, s₂', hdone₂, hdone₂', hs₂, hperf⟩ | ⟨d', hd, hperf'⟩
    · exact .inl ⟨s₂, s₂', hdone.append hdone₂, hdone'.append hdone₂', hs₂, hperf⟩
    · refine .inr ⟨d', hd, fun whole' rest' => ?_⟩
      rw [List.map_append, List.append_assoc]
      exact hdone'.performs (hperf' whole' rest')
  · refine .inr ⟨d', hd, fun whole' rest' => ?_⟩
    rw [List.map_append, List.append_assoc]
    exact hperf' whole' _

/-- The same actions, which depend on nothing that is not known. -/
theorem of_afterAll (hh : h.Narrow) (hs : s.Agrees κ s') (hκ : κ.afterAll as = some κ') : Tracks h as as s s' κ' := by
  induction as generalizing κ s s' with
  | nil =>
      cases hκ
      exact .nil hs
  | cons a as ih =>
      obtain ⟨κ₁, ha, has⟩ := Option.bind_eq_some_iff.mp hκ
      exact .cons (hs.perform hh ha) fun s₁ s₁' hs₁ => ih hs₁ has

end Tracks

/-! ### Instructions -/

namespace Lowering

variable {ctx : LoweringContext} {f f' : Fetched}

theorem done_publishActions {ip : UInt32} (hcalls : as.any Action.callsHelper = true)
    (hblind : ∀ a ∈ as.takeWhile fun a => !a.callsHelper, a.blind = true) (hdone : Action.Done h as (s.atEip ip) s') :
    Action.Done h (publishActions ip as) s s' := by
  induction as generalizing s with
  | nil => cases hcalls
  | cons a as ih =>
      rw [publishActions]
      by_cases ha : a.callsHelper = true
      · rw [if_pos ha]
        exact .cons rfl hdone
      · rw [if_neg ha]
        rw [List.any_cons, Bool.eq_false_iff.2 ha, Bool.false_or] at hcalls
        rw [List.takeWhile_cons_of_pos (by simpa using ha)] at hblind
        obtain ⟨s₁, hs₁⟩ := Action.perform_blind (hblind a List.mem_cons_self) h s
        cases hdone with
        | cons hact hdone =>
            rw [(hs₁ ip).2] at hact
            cases hact
            exact .cons (hs₁ ip).1 (ih hcalls (fun b hb => hblind b (List.mem_cons_of_mem _ hb)) hdone)

theorem done_published (hdone : Action.Done h (actions ctx f) (commence ctx f s) s') :
    Action.Done h (publishActions f.inst.ip (actions ctx f)) s s' := by
  rw [commence] at hdone
  by_cases hcalls : (actions ctx f).any Action.callsHelper = true
  · rw [if_pos hcalls] at hdone
    exact done_publishActions hcalls (blind_actions ctx f) hdone
  · rw [if_neg hcalls] at hdone
    rwa [publishActions_of_quiet (Bool.eq_false_iff.2 hcalls)]

/-- What is known before the actions of an instruction: the instruction pointer, if a helper is called. -/
def outset (ctx : LoweringContext) (f : Fetched) : Known :=
  ⟨(actions ctx f).any Action.callsHelper, fun _ => none⟩

/-- An instruction depends on no temporary, and on the instruction pointer only if it calls a helper. -/
theorem exists_afterAll (ctx : LoweringContext) (f : Fetched) : ∃ κ, (outset ctx f).afterAll (actions ctx f) = some κ := by
  unfold outset actions
  dsimp only
  cases f.inst.kind with
  | mov dst src => cases dst <;> cases src <;> cases f.hotImm <;> exact ⟨_, rfl⟩
  | alu op dst src =>
      dsimp only
      cases op.writesResult <;> cases dst <;> cases src <;> cases f.hotImm <;> exact ⟨_, rfl⟩
  | unary op dst => cases dst <;> cases f.hotImm <;> exact ⟨_, rfl⟩
  | push src => cases hsize : ctx.stack32 <;> cases src <;> cases f.hotImm <;> simp only [push, wrapStack, hsize] <;> exact ⟨_, rfl⟩
  | pop dst => cases hsize : ctx.stack32 <;> simp only [pop, wrapStack, hsize] <;> exact ⟨_, rfl⟩
  | call target => cases hsize : ctx.stack32 <;> simp only [push, wrapStack, hsize] <;> exact ⟨_, rfl⟩
  | ret extra => cases hsize : ctx.stack32 <;> simp only [pop, wrapStack, hsize] <;> exact ⟨_, rfl⟩
  | div signed src => cases src <;> cases f.hotImm <;> exact ⟨_, rfl⟩
  | iret => cases ctx.protectedMode <;> exact ⟨_, rfl⟩
  | _ => exact ⟨_, rfl⟩

/-- If an instruction calls a helper, the instruction pointer is known from its start on. -/
theorem agrees_commence (hs : s.Agrees ⟨false, fun _ => none⟩ s') (hip : f'.inst.ip = f.inst.ip)
    (hcalls : (actions ctx f').any Action.callsHelper = true → (actions ctx f).any Action.callsHelper = true) :
    (commence ctx f s).Agrees (outset ctx f') (commence ctx f' s') := by
  have hat (eip : UInt32) : (s.atEip eip).Agrees ⟨false, fun _ => none⟩ s' :=
    ⟨hs.env, hs.running, hs.callback, hs.cpu, by simp, by simp [Known.has]⟩
  unfold commence outset
  cases hcalls' : (actions ctx f').any Action.callsHelper with
  | false =>
      rw [if_neg Bool.false_ne_true]
      split
      · exact hat _
      · exact hs
  | true =>
      rw [if_pos rfl, if_pos (hcalls hcalls'), hip]
      refine ⟨hs.env, hs.running, hs.callback, ?_, fun _ => rfl, by simp [Known.has]⟩
      change ({ s'.cpu with eip := f.inst.ip } : Cpu) = { s.cpu with eip := f.inst.ip }
      rw [hs.cpu]

/-- Instructions whose actions track each other. -/
theorem tracks_published
    (htracks : Tracks h (actions ctx f) (actions ctx f') (commence ctx f s) (commence ctx f' s') κ) :
    Tracks h (publishActions f.inst.ip (actions ctx f)) (publishActions f'.inst.ip (actions ctx f')) s s' κ := by
  intro whole rest d hperf
  rcases htracks _ _ _ ((performs_published ctx f).mp hperf) with ⟨s₁, s₁', hdone, hdone', hs₁, hperf⟩ | ⟨d', hd, hperf'⟩
  · exact .inl ⟨s₁, s₁', done_published hdone, done_published hdone', hs₁, hperf⟩
  · exact .inr ⟨d', hd, fun whole' rest' => (performs_published ctx f').mpr (hperf' whole' rest')⟩

theorem tracks_self (hh : h.Narrow) (hs : s.Agrees ⟨false, fun _ => none⟩ s') (ctx : LoweringContext) (f : Fetched) :
    ∃ κ, Tracks h (publishActions f.inst.ip (actions ctx f)) (publishActions f.inst.ip (actions ctx f)) s s' κ := by
  obtain ⟨κ, hκ⟩ := exists_afterAll ctx f
  exact ⟨κ, tracks_published (.of_afterAll hh (agrees_commence hs rfl id) hκ)⟩

/-! ### The ends of blocks -/

variable {whole whole' : List MicroOp} {d : Departure ε} {count : Nat}

theorem departs (hh : h.Narrow) (hs : s.Agrees κ s') (hκ : (κ.afterAll as).any Known.eip = true) {op : MicroOp}
    (hop : op.leaves = true) (hperf : Performs h whole (as.map .act ++ [op]) s d) :
    ∃ d', Performs h whole' (as.map .act ++ [op]) s' d' ∧ d.Alike d' := by
  obtain ⟨κ', hκ, heip⟩ : ∃ κ', κ.afterAll as = some κ' ∧ κ'.eip = true := by
    cases hafter : κ.afterAll as with
    | none =>
        rw [hafter] at hκ
        cases hκ
    | some κ' =>
        rw [hafter] at hκ
        exact ⟨κ', rfl, hκ⟩
  rcases Tracks.of_afterAll hh hs hκ _ _ _ hperf with ⟨s₁, s₁', -, hdone', hs₁, hperf⟩ | ⟨d', hd, hperf'⟩
  · cases hperf with
    | exit => exact ⟨_, hdone'.performs .exit, .exit (hs₁.alike heip)⟩
    | link => exact ⟨_, hdone'.performs .link, .link (hs₁.alike heip)⟩
    | step | leave | abort | jump | pass | bind => cases hop
  · exact ⟨d', hperf' _ _, hd⟩

/-- What is charged, as actions. -/
def charged (n : Nat) : List Action :=
  if n = 0 then [] else [.subCycles n.toUInt32]

theorem charge_eq (n : Nat) : charge n = (charged n).map .act := by
  unfold charge charged
  split <;> rfl

theorem eip_charged (κ : Known) (n : Nat) (eip : UInt32) : (κ.afterAll (charged n ++ [.setEip eip])).any Known.eip = true := by
  unfold charged
  split <;> rfl

theorem departs_ending (hh : h.Narrow) (hs : s.Agrees κ s') {stop : TraceEnd}
    (hperf : Performs h whole (ending ctx count stop) s d) :
    ∃ d', Performs h whole' (ending ctx count stop) s' d' ∧ d.Alike d' := by
  have hgoes (eip : UInt32) (slot : Slot) : charge count ++ [.act (.setEip eip), link ctx slot] =
      (charged count ++ [Action.setEip eip]).map .act ++ [link ctx slot] := by
    rw [charge_eq, List.map_append, List.append_assoc]
    rfl
  cases stop with
  | terminal => cases hperf
  | unfetchable eip =>
      rw [ending] at hperf ⊢
      split at hperf
      · rename_i hcount
        rw [if_pos hcount]
        have hκ : (κ.afterAll [.setEip eip]).any Known.eip = true := rfl
        exact departs hh hs hκ rfl hperf
      · rename_i hcount
        rw [if_neg hcount]
        rw [hgoes] at hperf ⊢
        exact departs hh hs (eip_charged _ _ _) rfl hperf
  | full eip =>
      rw [ending] at hperf ⊢
      rw [hgoes] at hperf ⊢
      exact departs hh hs (eip_charged _ _ _) rfl hperf

/-- The last instruction of a block depends on nothing from before, and sets the instruction pointer. -/
theorem exists_departure (ctx : LoweringContext) (count : Nat) (hends : f.inst.endsBlock = true)
    (hjcc : ∀ cond target, f.inst.kind ≠ .jcc cond target) :
    ∃ as op, departure ctx count f = as.map .act ++ [op] ∧ op.leaves = true ∧
      ((outset ctx f).afterAll (actions ctx f ++ as)).any Known.eip = true := by
  have hbail (eip : UInt32) (code : ExitCode) : bail eip count code = (charged count ++ [Action.setEip eip]).map .act ++ [.exit code] := by
    rw [bail, charge_eq, List.map_append, List.append_assoc]
    rfl
  unfold outset actions departure
  unfold Instruction.endsBlock at hends
  cases hkind : f.inst.kind with
  | jcc cond target => exact absurd hkind (hjcc cond target)
  | jmp target => exact ⟨[.subCycles _, .setEip _], link ctx .first, rfl, rfl, rfl⟩
  | call target =>
      refine ⟨[.subCycles _, .setEip _], link ctx .first, rfl, rfl, ?_⟩
      cases hsize : ctx.stack32 <;> simp only [push, wrapStack, hsize] <;> rfl
  | ret extra =>
      refine ⟨[.subCycles _], .exit .normal, rfl, rfl, ?_⟩
      cases hsize : ctx.stack32 <;> simp only [pop, wrapStack, hsize] <;> rfl
  | iret =>
      dsimp only
      cases ctx.protectedMode with
      | true => exact ⟨_, _, hbail .., rfl, eip_charged ..⟩
      | false => exact ⟨[.subCycles _], .exit .iret, rfl, rfl, rfl⟩
  | callback n => exact ⟨[.subCycles _, .setEip _, .setCallback _], .exit .callback, rfl, rfl, rfl⟩
  | other | invalid => exact ⟨_, _, hbail .., rfl, eip_charged ..⟩
  | _ =>
      rw [hkind] at hends
      cases hends

/-- A conditional jump leaves through the slot that its condition says. -/
theorem performs_jcc {cond : Cond} {target : UInt32} (hkind : f.inst.kind = .jcc cond target) {before : List MicroOp}
    (hwell : WellFormed whole) (hwhole : whole = before ++ departure ctx count f) :
    Performs h whole (departure ctx count f) s d ↔
      d = .link (ctx.entry (if cond.holds s.cpu.eflags then .second else .first)) (s.withCpu { s.cpu with
        cycles := s.cpu.cycles - (count + 1).toUInt32.toInt32
        eip := if cond.holds s.cpu.eflags then target &&& ctx.ipMask else f.inst.nextIp ctx.code32 }) := by
  have hops : departure ctx count f = [.act (.subCycles (count + 1).toUInt32), .jumpIf cond 0,
      .act (.setEip (f.inst.nextIp ctx.code32)), link ctx .first, .bind 0, .act (.setEip (target &&& ctx.ipMask)), link ctx .second] := by
    rw [departure, hkind]
    rfl
  have hlink {whole rest : List MicroOp} {s : Activation ε} {eip : UInt32} {slot : Slot} :
      Performs h whole (.act (.setEip eip) :: link ctx slot :: rest) s d ↔ d = .link (ctx.entry slot) (s.atEip eip) := by
    refine (Performs.act_iff rfl).trans ⟨fun hperf => ?_, ?_⟩
    · cases hperf
      rfl
    · rintro rfl
      exact .link
  rw [hops] at hwhole ⊢
  rw [Performs.act_iff rfl]
  have hjump : .jumpIf cond 0 ∈ whole := by simp [hwhole]
  have hsplit : whole = (before ++ [.act (.subCycles (count + 1).toUInt32), .jumpIf cond 0,
      .act (.setEip (f.inst.nextIp ctx.code32)), link ctx .first]) ++
        .bind 0 :: [.act (.setEip (target &&& ctx.ipMask)), link ctx .second] := by
    simp [hwhole]
  cases hcond : cond.holds s.cpu.eflags with
  | false =>
      refine Iff.trans ⟨fun hperf => ?_, fun hperf => .pass hcond hperf⟩ hlink
      cases hperf with
      | pass _ hrest => exact hrest
      | jump hholds => exact absurd (hholds.symm.trans hcond) (by decide)
  | true =>
      refine Iff.trans ⟨fun hperf => ?_, fun hperf => .jump hcond hsplit hperf⟩ hlink
      cases hperf with
      | pass hholds => exact absurd (hcond.symm.trans hholds) (by decide)
      | jump _ hsplit' hafter =>
          rwa [hwell.eq_afterBind hjump hsplit', ← hwell.eq_afterBind hjump hsplit] at hafter

/-- The last instruction of a block leaves alike. -/
theorem departs_instruction (hh : h.Narrow) (hs : s.Agrees ⟨false, fun _ => none⟩ s') (hends : f.inst.endsBlock = true)
    {before before' : List MicroOp} (hwell : WellFormed whole) (hwhole : whole = before ++ instruction ctx count f)
    (hwell' : WellFormed whole') (hwhole' : whole' = before' ++ instruction ctx count f)
    (hperf : Performs h whole (instruction ctx count f) s d) :
    ∃ d', Performs h whole' (instruction ctx count f) s' d' ∧ d.Alike d' := by
  by_cases hjcc : ∃ cond target, f.inst.kind = .jcc cond target
  · obtain ⟨cond, target, hkind⟩ := hjcc
    have hops : instruction ctx count f = departure ctx count f := by
      rw [instruction_eq, actions, hkind]
      rfl
    rw [hops] at hwhole hwhole' hperf ⊢
    obtain rfl := (performs_jcc hkind hwell hwhole).mp hperf
    refine ⟨_, (performs_jcc hkind hwell' hwhole').mpr rfl, ?_⟩
    have hflags : s'.cpu.eflags = s.cpu.eflags := by rw [hs.cpu]
    rw [hflags]
    refine .link (Activation.Agrees.alike (κ := ⟨true, fun _ => none⟩) ⟨hs.env, hs.running, hs.callback, ?_, fun _ => rfl, hs.temp⟩ rfl)
    rw [Activation.cpu_withCpu, Activation.cpu_withCpu, hs.cpu]
  · simp only [not_exists] at hjcc
    obtain ⟨as, op, hdeparture, hop, hκ⟩ := exists_departure ctx count hends hjcc
    rw [← List.append_nil (instruction ctx count f), performs_instruction, List.append_nil, hdeparture, ← List.append_assoc,
      ← List.map_append] at hperf
    obtain ⟨d', hperf', hd⟩ : ∃ d', Performs h whole' ((actions ctx f ++ as).map .act ++ [op]) (commence ctx f s') d' ∧ d.Alike d' :=
      departs hh (agrees_commence hs rfl id) hκ hop hperf
    refine ⟨d', ?_, hd⟩
    rwa [← List.append_nil (instruction ctx count f), performs_instruction, List.append_nil, hdeparture, ← List.append_assoc,
      ← List.map_append]

end Lowering

end Recompiler
