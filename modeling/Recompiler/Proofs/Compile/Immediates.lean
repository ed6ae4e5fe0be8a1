import Recompiler.Compile.Trace
import Recompiler.Proofs.Guest.Shapes

/-! Immediate operands and the bytes they come from. An immediate is read last of all, so that its bytes end the
instruction. Whatever stands in their place, the same instruction is decoded with the immediate that they spell. -/

namespace Recompiler

open Scan

/-- What the bytes of an immediate mean for an operation of width `w`. -/
def Width.extend (w size : Width) (value : UInt32) : UInt32 :=
  if size.bytes < w.bytes then size.signExtend value else value

/-- The kind of instruction with another value as its immediate source. -/
def Kind.rebake (value : UInt32) : Kind → Kind
  | .mov dst (.imm i) => .mov dst (.imm { i with value })
  | .alu op dst (.imm i) => .alu op dst (.imm { i with value })
  | .push (.imm i) => .push (.imm { i with value })
  | k => k

/-- An immediate is moved to a register of the width of the operation. -/
def Kind.Level (w : Width) : Kind → Prop
  | .mov (.reg r) (.imm _) => r.width = w
  | _ => True

namespace Encoding

open Reader

theorem width_regView (w : Width) (n : Fin 8) : (regView w n).width = w := by
  unfold regView
  cases w <;> grind

variable {α : Type} {bs : List UInt8} {pos pos' : Nat}

theorem Reader.byte_eq_ok {b : UInt8} : Reader.byte bs pos = .ok (b, pos') ↔ pos < maxLength ∧ bs[pos]? = some b ∧ pos' = pos + 1 := by
  unfold Reader.byte
  split
  · rename_i hlong
    exact ⟨fun h => (by cases h), fun h => absurd h.1 (Nat.not_lt.mpr hlong)⟩
  · rename_i hshort
    split
    · rename_i b' hb
      rw [hb]
      constructor
      · intro h
        cases h
        exact ⟨Nat.lt_of_not_le hshort, rfl, rfl⟩
      · rintro ⟨-, hb', rfl⟩
        cases hb'
        rfl
    · rename_i hb
      rw [hb]
      exact ⟨fun h => (by cases h), fun h => by cases h.2.1⟩

/-- The next bytes, if there are so many. -/
theorem Reader.bytes_eq_ok {n : Nat} {l : List UInt8} (hpos : pos ≤ bs.length) (hmax : pos ≤ maxLength) :
    Reader.bytes n bs pos = .ok (l, pos') ↔
      pos' = pos + n ∧ pos' ≤ bs.length ∧ pos' ≤ maxLength ∧ l = (bs.drop pos).take n := by
  induction n generalizing pos l with
  | zero =>
      change Except.ok ([], pos) = Except.ok (l, pos') ↔ _
      constructor
      · intro h
        cases h
        exact ⟨rfl, hpos, hmax, by simp⟩
      · rintro ⟨rfl, -, -, rfl⟩
        simp
  | succ n ih =>
      rw [Reader.bytes, bind_apply]
      constructor
      · intro h
        split at h
        · rename_i b pos₁ hb
          obtain ⟨hlt, hget, rfl⟩ := Reader.byte_eq_ok.mp hb
          obtain ⟨hlen, hget⟩ := List.getElem?_eq_some_iff.mp hget
          rw [bind_apply] at h
          split at h
          · rename_i rest pos₂ hrest
            cases h
            obtain ⟨rfl, hlen', hmax', rfl⟩ := (ih hlen hlt).mp hrest
            refine ⟨by omega, hlen', hmax', ?_⟩
            rw [List.drop_eq_getElem_cons hlen, List.take_succ_cons, hget]
          · cases h
        · cases h
      · rintro ⟨rfl, hlen, hmax', rfl⟩
        have hlt : pos < bs.length := by omega
        rw [Reader.byte_eq_ok.mpr ⟨by omega, List.getElem?_eq_getElem hlt, rfl⟩]
        dsimp only
        rw [bind_apply, (ih hlt (by omega)).mpr ⟨(by omega : pos + (n + 1) = pos + 1 + n), hlen, hmax', rfl⟩]
        dsimp only
        rw [pure_apply, List.drop_eq_getElem_cons hlt, List.take_succ_cons]

/-- An immediate and where it was read. -/
theorem immediate_eq_ok {w size : Width} {imm : Imm} (hpos : pos ≤ bs.length) (hmax : pos ≤ maxLength) :
    immediate w size bs pos = .ok (imm, pos') ↔ pos' = pos + size.bytes ∧ pos' ≤ bs.length ∧ pos' ≤ maxLength ∧
      imm = ⟨w.extend size (joinBytes ((bs.drop pos).take size.bytes)), pos, size.bytes⟩ := by
  have hread : immediate w size bs pos =
      match Reader.bytes size.bytes bs pos with
      | .ok (l, pos') => .ok (⟨w.extend size (joinBytes l), pos, size.bytes⟩, pos')
      | .error e => .error e := by
    have hword : Reader.word size bs pos =
        match Reader.bytes size.bytes bs pos with
        | .ok (l, pos') => .ok (joinBytes l, pos')
        | .error e => .error e := by
      rw [Reader.word, bind_apply]
      cases Reader.bytes size.bytes bs pos <;> rfl
    have hposition : (immediate w size) bs pos =
        match Reader.word size bs pos with
        | .ok (value, pos') => .ok (⟨w.extend size value, pos, size.bytes⟩, pos')
        | .error e => .error e := by
      have hposition : Reader.position bs pos = .ok (pos, pos) := rfl
      rw [immediate, bind_apply, hposition]
      dsimp only
      rw [bind_apply]
      cases Reader.word size bs pos <;> rfl
    rw [hposition, hword]
    cases Reader.bytes size.bytes bs pos <;> rfl
  rw [hread]
  constructor
  · intro h
    split at h
    · rename_i l pos₁ hbytes
      cases h
      obtain ⟨hpos', hlen, hmax', rfl⟩ := (Reader.bytes_eq_ok hpos hmax).mp hbytes
      exact ⟨hpos', hlen, hmax', rfl⟩
    · cases h
  · rintro ⟨hpos', hlen, hmax', rfl⟩
    rw [(Reader.bytes_eq_ok hpos hmax).mpr ⟨hpos', hlen, hmax', rfl⟩]

/-- The immediate source of what was decoded. -/
def Decoded.source : Decoded → Option Imm
  | .defined _ (some (kind, _)) => immediateSource kind
  | _ => none

/-- What was decoded, with another value as its immediate source. -/
def Decoded.rebake (value : UInt32) : Decoded → Decoded
  | .defined lockable (some (kind, w)) => .defined lockable (some (kind.rebake value, w))
  | d => d

/-- The width of the operation. -/
def Decoded.width : Decoded → Width
  | .defined _ (some (_, w)) => w
  | _ => .w8

/-- An immediate that is moved to a register has its width. -/
def Decoded.Level : Decoded → Prop
  | .defined _ (some (kind, w)) => kind.Level w
  | _ => True

/-- Where a reader gives an instruction with an immediate, that is spelled by the last bytes it reads, and any bytes in their
place are taken for the immediate. -/
def Reader.Bakes (r : Reader Decoded) (pos : Nat) : Prop :=
  ∀ bytes d pos' imm, pos ≤ bytes.length → pos ≤ maxLength → r bytes pos = .ok (d, pos') → d.source = some imm →
    pos ≤ imm.offset ∧ imm.offset + imm.size = pos' ∧ d.Level ∧ ∃ size : Width, size.bytes = imm.size ∧
      size.bytes ≤ d.width.bytes ∧ ∀ bytes', bytes'.take imm.offset = bytes.take imm.offset → pos' ≤ bytes'.length →
        r bytes' pos = .ok (d.rebake (d.width.extend size (joinBytes ((bytes'.drop imm.offset).take imm.size))), pos')

namespace Reader.Bakes

theorem of_yields {r : Reader Decoded} (h : Yields r fun d => d.source = none) (pos : Nat) : Bakes r pos := by
  intro bytes d pos' imm _ _ hr hsource
  rw [h bytes pos d pos' hr] at hsource
  cases hsource

/-- What is read before stays as it is. -/
theorem bind {r : Reader α} {f : α → Reader Decoded} {P : α → Prop} (hr : Local r pos) (hyields : Yields r P)
    (hf : ∀ a pos', P a → Bakes (f a) pos') : Bakes (r >>= f) pos := by
  intro bytes d pos' imm hpos hmax h hsource
  rw [bind_apply] at h
  split at h
  · rename_i a pos₁ hra
    obtain ⟨hle, hlen, hmax₁, hstable⟩ := hr.ok bytes a pos₁ hpos hmax hra
    obtain ⟨hle', hend, hlevel, size, hsize, hwide, hbake⟩ :=
      hf a pos₁ (hyields bytes pos a pos₁ hra) bytes d pos' imm hlen hmax₁ h hsource
    refine ⟨hle.trans hle', hend, hlevel, size, hsize, hwide, fun bytes' htake hlen' => ?_⟩
    rw [bind_apply, hstable bytes' (take_of_le htake hle')]
    exact hbake bytes' htake hlen'
  · cases h

/-- An immediate is read, and the instruction is complete. -/
theorem immediate {w size : Width} {lockable : Bool} {kind : Operand → Kind} (hwide : size.bytes ≤ w.bytes)
    (hsource : ∀ i, immediateSource (kind (.imm i)) = some i)
    (hrebake : ∀ i value, (kind (.imm i)).rebake value = kind (.imm { i with value })) (hlevel : ∀ i, (kind (.imm i)).Level w)
    (pos : Nat) :
    Bakes (Encoding.immediate w size >>= fun i => Pure.pure (.defined lockable (some (kind (.imm i), w)))) pos := by
  intro bytes d pos' imm hpos hmax h hd
  rw [bind_apply] at h
  split at h
  · rename_i i pos₁ hi
    obtain ⟨hend, hlen, hmax', rfl⟩ := (immediate_eq_ok hpos hmax).mp hi
    cases h
    obtain rfl := Option.some.inj ((hsource _).symm.trans hd)
    refine ⟨le_rfl, hend.symm, hlevel _, size, rfl, hwide, fun bytes' htake hlen' => ?_⟩
    rw [bind_apply, (immediate_eq_ok (by omega) hmax).mpr ⟨hend, hlen', hmax', rfl⟩]
    dsimp only [Decoded.rebake, Decoded.width]
    rw [hrebake, pure_apply]
  · cases h

end Reader.Bakes

/-- A register that an operand byte names is a view of the width asked for. -/
theorem Context.yields_width (ctx : Context) (m : ModRM) (w : Width) :
    Yields (ctx.operand m w) fun op => ∀ r, op = .reg r → r.width = w := by
  unfold operand
  split
  · refine .pure fun r hr => ?_
    cases hr
    exact width_regView w m.rm
  · exact .bind (.any _) fun _ _ => .pure (by simp)

/-- An immediate is no wider than the operation. -/
def Entry.Fits : Entry → Prop
  | .immediate _ w size => size.bytes ≤ w.bytes
  | _ => True

/-- The immediates of a form are no wider than the operation. -/
def Form.Fits (opWidth : Width) : Form → Prop
  | .modrm select => ∀ m, (select m).Fits
  | .pushImm size => size.bytes ≤ opWidth.bytes
  | _ => True

theorem Entry.fits_onlyMemory {e : Entry} (h : e.Fits) (m : ModRM) : (e.onlyMemory m).Fits := by
  unfold Entry.onlyMemory
  split
  · trivial
  · exact h

theorem Entry.fits_onlyRegister {e : Entry} (h : e.Fits) (m : ModRM) : (e.onlyRegister m).Fits := by
  unfold Entry.onlyRegister
  split
  · exact h
  · trivial

theorem Form.Fits.ite {opWidth : Width} {p : Prop} [Decidable p] {f g : Form} (hf : f.Fits opWidth) (hg : g.Fits opWidth) :
    (if p then f else g).Fits opWidth := by
  split
  · exact hf
  · exact hg

theorem fits_oneByte (opWidth : Width) (op : Nat) : (oneByte opWidth op).Fits opWidth := by
  have hbyte : Width.w8.bytes ≤ opWidth.bytes := by cases opWidth <;> decide
  have hrow : (aluRow opWidth op).Fits opWidth := by
    unfold aluRow
    dsimp only
    split <;> first | trivial | exact fun _ => trivial
  have hescape (n : Nat) : (x87 n).Fits opWidth := by
    intro m
    dsimp only
    split_ifs <;> trivial
  have hmov (w : Width) : (Form.modrm (movGroup w)).Fits opWidth := by
    intro m
    unfold movGroup
    split_ifs <;> first | exact le_rfl | trivial
  have harithmetic (w : Width) : (Form.modrm (arithmeticGroup w)).Fits opWidth := by
    intro m
    unfold arithmeticGroup
    split <;> first | exact le_rfl | trivial
  have htransfer : (Form.modrm (transferGroup opWidth)).Fits opWidth := by
    intro m
    unfold transferGroup
    split <;> first | exact Entry.fits_onlyMemory (by trivial) m | trivial
  unfold oneByte
  extract_lets w n
  refine .ite hrow <| .ite trivial <| .ite trivial <| .ite trivial <| .ite trivial <| .ite trivial <| .ite trivial <|
    .ite trivial <| .ite trivial <| .ite (hescape _) ?_
  split
  all_goals first
    | exact hmov _
    | exact harithmetic _
    | exact htransfer
    | exact hbyte
    | exact le_rfl
    | trivial
    | exact fun _ => le_rfl
    | exact fun _ => hbyte
    | exact Entry.fits_onlyMemory (by trivial)
    | exact fun _ => trivial
    | exact fun m => by dsimp only; split_ifs <;> trivial

theorem fits_twoByte (opWidth : Width) (op : Nat) : (twoByte opWidth op).Fits opWidth := by
  have hsystem : (Form.modrm systemGroup).Fits opWidth := by
    intro m
    unfold systemGroup
    split_ifs
    · split <;> trivial
    all_goals trivial
  have hshift (defined : Nat → Bool) : (Form.modrm (shiftGroup defined)).Fits opWidth := by
    intro m
    unfold shiftGroup
    split_ifs <;> trivial
  have hexchange : (Form.modrm exchangeGroup).Fits opWidth := by
    intro m
    unfold exchangeGroup
    split_ifs
    all_goals first | trivial | (split <;> trivial)
  have hstate : (Form.modrm stateGroup).Fits opWidth := by
    intro m
    unfold stateGroup
    split_ifs <;> trivial
  unfold twoByte
  refine .ite trivial <| .ite trivial ?_
  split
  all_goals first
    | exact hsystem
    | exact hshift _
    | exact hexchange
    | exact hstate
    | trivial
    | exact Entry.fits_onlyMemory (by trivial)
    | exact Entry.fits_onlyRegister (by trivial)
    | exact fun _ => trivial
    | exact fun m => by dsimp only; split_ifs <;> trivial

/-- Only a binary instruction with an immediate operand takes its source from the operand byte and what follows. -/
theorem Entry.bakes_read (ctx : Context) (m : ModRM) (e : Entry) (he : e.Fits) (pos : Nat) : Bakes (e.read ctx m) pos := by
  have hoperand (w : Width) := ctx.yields_operand m w
  cases e with
  | immediate f w size =>
      refine .bind (ctx.local_operand m w pos) (ctx.yields_width m w) fun dst pos' hdst => ?_
      cases f with
      | mov =>
          refine .immediate he (fun _ => rfl) (fun _ _ => rfl) (fun i => ?_) pos'
          cases dst with
          | reg r => exact hdst r rfl
          | mem a => trivial
          | imm i => trivial
      | alu op => exact .immediate he (fun _ => rfl) (fun _ _ => rfl) (fun _ => by trivial) pos'
  | load f w =>
      refine .of_yields (.bind (hoperand w) fun src hsrc => .pure ?_) pos
      cases src with
      | imm i => exact absurd rfl (hsrc i)
      | reg r => cases f <;> rfl
      | mem a => cases f <;> rfl
  | store f w => exact .of_yields (.bind (.any _) fun dst _ => .pure (by cases f <;> rfl)) pos
  | undefined => exact .of_yields (.pure rfl) pos
  | undefinedAfter n => exact .of_yields (.bind (.any _) fun _ _ => .pure rfl) pos
  | undefinedOperand => exact .of_yields (.bind (.any _) fun _ _ => .pure rfl) pos
  | fixed => exact .of_yields (.pure rfl) pos
  | operand lockable n => exact .of_yields (.bind (.any _) fun _ _ => .bind (.any _) fun _ _ => .pure rfl) pos
  | nop => exact .of_yields (.bind (.any _) fun _ _ => .pure rfl) pos
  | fpu => exact .of_yields (.bind (.any _) fun _ _ => .pure rfl) pos
  | unary op w => exact .of_yields (.bind (.any _) fun _ _ => .pure rfl) pos
  | div signed w => exact .of_yields (.bind (.any _) fun _ _ => .pure rfl) pos
  | lea =>
      unfold Entry.read
      dsimp only
      split
      · exact .of_yields (.pure rfl) pos
      · exact .of_yields (.bind (.any _) fun _ _ => .pure rfl) pos
  | push =>
      refine .of_yields (.bind (.any _) fun op _ => ?_) pos
      cases op <;> exact .pure rfl
  | pop =>
      refine .of_yields (.bind (.any _) fun op _ => ?_) pos
      cases op <;> exact .pure rfl

theorem Form.bakes_read (ctx : Context) (f : Form) (hf : f.Fits ctx.opWidth) (pos : Nat) : Bakes (f.read ctx) pos := by
  cases f with
  | modrm select => exact .bind (ModRM.local_read pos) (.any _) fun m pos' _ => Entry.bakes_read ctx m (select m) (hf m) pos'
  | accumulator op w => exact .immediate le_rfl (fun _ => rfl) (fun _ _ => rfl) (fun _ => by trivial) pos
  | movImm w n => exact .immediate le_rfl (fun _ => rfl) (fun _ _ => rfl) (fun _ => by exact width_regView w n) pos
  | pushImm size => exact @Bakes.immediate _ size false .push hf (fun _ => rfl) (fun _ _ => rfl) (fun _ => trivial) pos
  | absolute w toMemory =>
      refine .of_yields (.bind (.any _) fun disp _ => .pure ?_) pos
      cases toMemory <;> rfl
  | nop =>
      unfold Form.read
      dsimp only
      split <;> exact .of_yields (.pure rfl) pos
  | bare | unaryReg | pushReg | popReg | ret | iret => exact .of_yields (.pure rfl) pos
  | trailing | farPointer | jcc | jmp | call | retImm => exact .of_yields (.bind (.any _) fun _ _ => .pure rfl) pos

theorem bakes_readOpcode (ctx : Context) (op : UInt8) (pos : Nat) : Bakes (readOpcode ctx op) pos := by
  unfold readOpcode
  split
  · exact .bind (Local.byte pos) (.any _) fun _ pos' _ => Form.bakes_read _ _ (fits_twoByte _ _) pos'
  · exact Form.bakes_read _ _ (fits_oneByte _ _) pos

/-- The opcode that callback traps share takes no immediate. -/
theorem source_of_trapping {ip : UInt32} {code32 : Bool} {p : Prefixes} {d : Decoded} {len : Nat} {rest : List UInt8}
    (h : readInstruction ip code32 (0xFE :: rest) 0 = .ok ((p, d), len)) : d.source = none := by
  obtain ⟨op, pos, hp, -, -, -, hread⟩ := readInstruction_ok h
  have hfirst : Prefixes.read maxLength {} (0xFE :: rest) 0 = .ok (({}, 0xFE), 1) := rfl
  rw [hfirst] at hp
  cases hp
  have hform : readOpcode (.of ip code32 {}) 0xFE = ModRM.read >>= fun m =>
      (if m.reg.val = 0 then Entry.unary .inc .w8 else if m.reg.val = 1 then .unary .dec .w8 else .undefined).read
        (.of ip code32 {}) m := rfl
  have hyields : Yields (readOpcode (.of ip code32 {}) 0xFE) fun d => d.source = none := by
    rw [hform]
    refine .bind (.any _) fun m _ => ?_
    split
    · exact .bind (.any _) fun _ _ => .pure rfl
    · split
      · exact .bind (.any _) fun _ _ => .pure rfl
      · exact .pure rfl
  exact hyields _ _ _ _ hread

/-- A lowering with an immediate source is that of an instruction without a lock prefix. -/
theorem classify_source {code32 : Bool} {p : Prefixes} {d : Decoded} {imm : Imm}
    (h : immediateSource (classify code32 p d).1 = some imm) :
    d.source = some imm ∧ (classify code32 p d).2 = d.width ∧ (d.Level → (classify code32 p d).1.Level d.width) ∧
      ∀ value, classify code32 p (d.rebake value) = ((classify code32 p d).1.rebake value, d.width) := by
  cases d with
  | undefined => cases h
  | defined lockable lowering =>
      unfold classify at h ⊢
      dsimp only at h ⊢
      split at h
      · split at h <;> cases h
      · rename_i hlock
        cases lowering with
        | none => cases h
        | some kw =>
            rw [if_neg hlock]
            refine ⟨h, rfl, id, fun value => ?_⟩
            dsimp only [Decoded.rebake]
            rw [if_neg hlock]
            rfl

end Encoding

open Encoding Reader

/-- The immediate of a decoded instruction is spelled by its last bytes. With other bytes in their place the same instruction
is decoded, with the immediate that they spell. -/
theorem decode_rebake {bs : List UInt8} {ip : UInt32} {code32 : Bool} {inst : Instruction} {imm : Imm}
    (h : decode bs ip code32 = .ok inst) (himm : immediateSource inst.kind = some imm) :
    imm.offset + imm.size = inst.len ∧ inst.kind.Level inst.width ∧ ∃ size : Width, size.bytes = imm.size ∧
      size.bytes ≤ inst.width.bytes ∧ ∀ bs', bs'.take imm.offset = bs.take imm.offset → inst.len ≤ bs'.length →
        decode bs' ip code32 = .ok { inst with
          kind := inst.kind.rebake (inst.width.extend size (joinBytes ((bs'.drop imm.offset).take imm.size))) } := by
  have hne : bs ≠ [] := by
    rintro rfl
    cases h
  have htrap : ¬Trapping bs := by
    rintro ⟨rest, rfl⟩
    rw [decode_trap] at h
    split at h <;> cases h
    cases himm
  rw [decode_plain hne htrap] at h
  split at h
  · rename_i p d len hread
    cases h
    dsimp only at himm ⊢
    obtain ⟨hsource, hwidth, hlevel, hclassify⟩ := classify_source himm
    obtain ⟨op, pos, hprefixes, hpos, hlen, hmax, hop⟩ := readInstruction_ok hread
    obtain ⟨hle, hend, hd, size, hsize, hwide, hbake⟩ := bakes_readOpcode _ op pos bs d len imm hlen hmax hop hsource
    refine ⟨hend, by rw [hwidth]; exact hlevel hd, size, hsize, by rw [hwidth]; exact hwide, fun bs' htake hlen' => ?_⟩
    have hne' : bs' ≠ [] := ne_nil_of_take (Nat.lt_of_lt_of_le hpos hle) htake hne
    have htrap' : ¬Trapping bs' := by
      rintro ⟨rest, rfl⟩
      obtain ⟨b, bs, rfl⟩ := List.exists_cons_of_ne_nil hne
      obtain ⟨n, hn⟩ := Nat.exists_eq_succ_of_ne_zero (Nat.lt_of_lt_of_le hpos hle).ne'
      rw [hn, List.take_succ_cons, List.take_succ_cons] at htake
      obtain rfl : 0xFE = b := (List.cons.inj htake).1
      rw [source_of_trapping hread] at hsource
      cases hsource
    have hread' : readInstruction ip code32 bs' 0 =
        .ok ((p, d.rebake (d.width.extend size (joinBytes ((bs'.drop imm.offset).take imm.size)))), len) := by
      obtain ⟨-, -, -, hstable⟩ := (Prefixes.local_read {} (by decide)).ok bs _ pos (Nat.zero_le _) (Nat.zero_le _) hprefixes
      rw [readInstruction, bind_apply, hstable bs' (take_of_le htake hle)]
      dsimp only
      rw [bind_apply, hbake bs' htake hlen']
      rfl
    rw [decode_plain hne' htrap', hread']
    dsimp only
    rw [hclassify, hwidth]
  · cases h
  · cases h
    cases himm

/-- Most instructions move no immediate. -/
theorem decode_level {bs : List UInt8} {ip : UInt32} {code32 : Bool} {inst : Instruction} (h : decode bs ip code32 = .ok inst) :
    inst.kind.Level inst.width := by
  cases himm : immediateSource inst.kind with
  | some imm => exact (decode_rebake h himm).2.1
  | none =>
      unfold Scan.immediateSource at himm
      unfold Kind.Level
      split
      · rename_i r i hkind
        rw [hkind] at himm
        cases himm
      · trivial

/-- Instructions that end a block take no immediate from memory. -/
theorem Instruction.source_of_endsBlock {i : Instruction} (h : i.endsBlock = true) : immediateSource i.kind = none := by
  unfold endsBlock at h
  cases hkind : i.kind
  case mov | alu | push =>
    rw [hkind] at h
    cases h
  all_goals rfl

end Recompiler
