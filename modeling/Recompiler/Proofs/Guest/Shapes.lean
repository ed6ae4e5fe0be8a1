import Recompiler.Proofs.Guest.Decoding

/-! Which operands decoded instructions have. At most one operand is in memory, an immediate is never a destination, and
what is pushed or divided by is of the kinds that have a lowering. -/

namespace Recompiler

/-- Operands as instructions of the kind have them. -/
def Kind.Regular : Kind → Prop
  | .mov dst src | .alu _ dst src => (∀ i, dst ≠ .imm i) ∧ ∀ a b, dst = .mem a → src ≠ .mem b
  | .unary _ dst => ∀ i, dst ≠ .imm i
  | .push src => ∀ a, src ≠ .mem a
  | .div _ src => ∀ i, src ≠ .imm i
  | _ => True

namespace Encoding

open Reader

variable {α β : Type}

/-- All that a reader can give has a property. -/
def Reader.Yields (r : Reader α) (P : α → Prop) : Prop :=
  ∀ bytes pos a pos', r bytes pos = .ok (a, pos') → P a

namespace Reader.Yields

variable {P : α → Prop} {Q : β → Prop}

theorem pure {a : α} (h : P a) : Yields (pure a : Reader α) P := by
  intro bytes pos a' pos' ha
  cases ha
  exact h

theorem any (r : Reader α) : Yields r fun _ => True := fun _ _ _ _ _ => trivial

theorem bind {r : Reader α} {f : α → Reader β} (hr : Yields r P) (hf : ∀ a, P a → Yields (f a) Q) : Yields (r >>= f) Q := by
  intro bytes pos b pos' hb
  rw [bind_apply] at hb
  split at hb
  · rename_i a pos₁ ha
    exact hf a (hr bytes pos a pos₁ ha) bytes pos₁ b pos' hb
  · cases hb

end Reader.Yields

/-- A lowering is for an instruction with the operands of its kind. -/
def Decoded.Regular : Decoded → Prop
  | .defined _ (some (kind, _)) => kind.Regular
  | _ => True

/-- An operand that an operand byte names is a register or in memory. -/
theorem Context.yields_operand (ctx : Context) (m : ModRM) (w : Width) :
    Yields (ctx.operand m w) fun op => ∀ i, op ≠ .imm i := by
  unfold operand
  split
  · exact .pure (by simp)
  · exact .bind (.any _) fun _ _ => .pure (by simp)

theorem Binary.regular {f : Binary} {dst src : Operand} (hdst : ∀ i, dst ≠ .imm i) (hsrc : ∀ a b, dst = .mem a → src ≠ .mem b) :
    (f.kind dst src).Regular := by
  cases f <;> exact ⟨hdst, hsrc⟩

theorem Entry.yields_read (ctx : Context) (m : ModRM) (e : Entry) : Yields (e.read ctx m) Decoded.Regular := by
  have hoperand := ctx.yields_operand m
  cases e with
  | undefined => exact .pure trivial
  | undefinedAfter n => exact .bind (.any _) fun _ _ => .pure trivial
  | undefinedOperand => exact .bind (.any _) fun _ _ => .pure trivial
  | fixed => exact .pure trivial
  | operand lockable n => exact .bind (.any _) fun _ _ => .bind (.any _) fun _ _ => .pure trivial
  | nop => exact .bind (.any _) fun _ _ => .pure trivial
  | fpu => exact .bind (.any _) fun _ _ => .pure trivial
  | store f w => exact .bind (hoperand w) fun _ h => .pure (Binary.regular h (by simp))
  | load f w => exact .bind (hoperand w) fun _ _ => .pure (Binary.regular (by simp) (by simp))
  | immediate f w size =>
      exact .bind (hoperand w) fun _ h => .bind (.any _) fun _ _ => .pure (Binary.regular h (by simp))
  | unary op w => exact .bind (hoperand w) fun _ h => .pure h
  | div signed w => exact .bind (hoperand w) fun _ h => .pure h
  | lea =>
      unfold Entry.read
      dsimp only
      split
      · exact .pure trivial
      · exact .bind (.any _) fun _ _ => .pure trivial
  | push =>
      refine .bind (.any _) fun op _ => ?_
      cases op with
      | reg r => exact .pure (fun a => by simp)
      | mem a => exact .pure trivial
      | imm i => exact .pure trivial
  | pop =>
      refine .bind (.any _) fun op _ => ?_
      cases op with
      | reg r => exact .pure trivial
      | mem a => exact .pure trivial
      | imm i => exact .pure trivial

theorem Form.yields_read (ctx : Context) (f : Form) : Yields (f.read ctx) Decoded.Regular := by
  have himm (i : Imm) (a : Address) : Operand.imm i ≠ .mem a := by simp
  have hreg (r : Reg) (i : Imm) : Operand.reg r ≠ .imm i := by simp
  cases f with
  | bare => exact .pure trivial
  | trailing n => exact .bind (.any _) fun _ _ => .pure trivial
  | farPointer => exact .bind (.any _) fun _ _ => .pure trivial
  | modrm select => exact .bind (.any _) fun m _ => Entry.yields_read ctx m (select m)
  | accumulator op w =>
      exact .bind (.any _) fun i _ => .pure (Binary.regular (f := .alu op) (hreg _) fun _ b _ => himm i b)
  | absolute w toMemory =>
      refine .bind (.any _) fun disp _ => .pure ?_
      split
      · exact Binary.regular (f := .mov) (by simp) (by simp)
      · exact Binary.regular (f := .mov) (hreg _) (by simp)
  | movImm w n => exact .bind (.any _) fun i _ => .pure (Binary.regular (f := .mov) (hreg _) fun _ b _ => himm i b)
  | unaryReg op n => exact .pure (hreg _)
  | pushReg n => exact .pure (fun a => by simp)
  | popReg n => exact .pure trivial
  | pushImm size => exact .bind (.any _) fun i _ => .pure (himm i)
  | jcc cond size => exact .bind (.any _) fun _ _ => .pure trivial
  | jmp size => exact .bind (.any _) fun _ _ => .pure trivial
  | call size => exact .bind (.any _) fun _ _ => .pure trivial
  | ret => exact .pure trivial
  | retImm => exact .bind (.any _) fun _ _ => .pure trivial
  | iret => exact .pure trivial
  | nop =>
      unfold Form.read
      dsimp only
      split
      · exact .pure trivial
      · exact .pure trivial

theorem yields_readInstruction (ip : UInt32) (code32 : Bool) : Yields (readInstruction ip code32) fun r => r.2.Regular := by
  refine .bind (.any _) fun a _ => .bind (P := Decoded.Regular) ?_ fun d hd => .pure hd
  unfold readOpcode
  split
  · exact .bind (.any _) fun _ _ => Form.yields_read _ _
  · exact Form.yields_read _ _

/-- A lock prefix takes the lowering away. -/
theorem classify_regular (code32 : Bool) (p : Prefixes) {d : Decoded} (h : d.Regular) : (classify code32 p d).1.Regular := by
  cases d with
  | undefined => exact trivial
  | defined lockable lowering =>
      unfold classify
      dsimp only
      split
      · split <;> exact trivial
      · cases lowering with
        | none => exact trivial
        | some kw => exact h

end Encoding

open Encoding in
/-- A decoded instruction has the operands of its kind. -/
theorem decode_regular {bs : List UInt8} {ip : UInt32} {code32 : Bool} {inst : Instruction} (h : decode bs ip code32 = .ok inst) :
    inst.kind.Regular := by
  unfold decode at h
  split at h
  · cases h
  · split at h <;> cases h
    exact trivial
  · split at h
    · rename_i hread
      cases h
      exact classify_regular code32 _ (yields_readInstruction ip code32 _ _ _ _ hread)
    · cases h
    · cases h
      exact trivial

end Recompiler
