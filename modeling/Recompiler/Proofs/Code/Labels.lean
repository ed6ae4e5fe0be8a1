import Recompiler.Proofs.Code.Threaded

/-! Labels of a block. On hosts of either kind only conditional jumps use labels, each in one field at a fixed place of
its code. Assembly gives up at the first jump whose label is bound nowhere; otherwise the field of every jump leads to
the place where its label is bound last, ahead or behind. The rest of the code is as it was written. -/

namespace Recompiler

namespace CodeBuffer

variable {b : CodeBuffer} {n pos : Nat}

/-- The number that stands in `n` bytes of the window, least significant first. -/
def word? (b : CodeBuffer) : (n pos : Nat) → Option Nat
  | 0, _ => some 0
  | n + 1, pos => do
    let low ← b.byte pos
    let high ← b.word? n (pos + 1)
    return low.toNat + 256 * high

theorem word?_eq_of_holds {value : Nat} (h : b.Holds pos (littleEndian n value)) : b.word? n pos = some (value % 256 ^ n) := by
  induction n generalizing pos value with
  | zero =>
      rw [Nat.pow_zero, Nat.mod_one]
      rfl
  | succ n ih =>
      rw [littleEndian] at h
      have hlow : b.byte pos = some value.toUInt8 := h 0 (by simp)
      have hrest : b.Holds (pos + 1) (littleEndian n (value / 256)) := by
        rw [← List.singleton_append] at h
        exact h.right
      have hbyte : value.toUInt8.toNat = value % 256 := UInt8.toNat_ofNat'
      have hsplit : value % 256 ^ (n + 1) = value % 256 + 256 * (value / 256 % 256 ^ n) := by
        rw [Nat.pow_succ', Nat.mod_mul]
      rw [word?, hlow, ih hrest, hsplit, ← hbyte]
      rfl

/-- Overwriting changes no bytes but those it is for, whether they fit or not. -/
theorem byte_patch_of_outside (b : CodeBuffer) {position j : Nat} {bytes : List UInt8}
    (hj : j < position ∨ position + bytes.length ≤ j) : (b.patch position bytes).byte j = b.byte j := by
  unfold patch byte
  split
  · dsimp only
    rw [getElem?_overwrite, if_neg (by omega)]
  · rfl

end CodeBuffer

/-! ### Label fields -/

namespace HostEncoding

variable {e : HostEncoding} {l : Label} {pos : Nat} {ps : List Piece}

theorem fields_eq_nil (h : ∀ l, .label l ∉ ps) (pos : Nat) : e.fields pos ps = [] := by
  induction ps generalizing pos with
  | nil => rfl
  | cons p ps ih =>
      have hrest := ih (fun l hl => h l (List.mem_cons_of_mem _ hl)) (pos + e.pieceSize p)
      rw [fields_cons, hrest, List.append_nil]
      cases p with
      | label l => exact absurd List.mem_cons_self (h l)
      | _ => rfl

theorem exists_mem_fields (hl : .label l ∈ ps) (pos : Nat) : ∃ field, (field, l) ∈ e.fields pos ps := by
  obtain ⟨before, after, rfl⟩ := List.append_of_mem hl
  refine ⟨pos + e.size before, ?_⟩
  rw [fields_append]
  exact List.mem_append_right _ List.mem_cons_self

/-- The bytes of one operation of a block. -/
theorem holds_op {b : CodeBuffer} {base : Nat} {content : Nat → Label → List UInt8}
    (hcontent : ∀ pos l, (content pos l).length = e.labelSize) {ops before rest : List MicroOp} {op : MicroOp}
    (hsplit : ops = before ++ op :: rest) (hholds : b.Holds pos (e.render base content pos (ops.flatMap e.written))) :
    b.Holds (pos + e.codeSize before) (e.render base content (pos + e.codeSize before) (e.written op)) := by
  rw [hsplit, List.flatMap_append, render_append] at hholds
  have hright := hholds.right
  rw [length_render hcontent, List.flatMap_cons, render_append] at hright
  exact hright.left

/-- Conditional jumps have one label field each, at `offset` of their code, and other operations have none. -/
structure Branches (e : HostEncoding) (offset : Nat) : Prop where
  sized : e.Sized
  jump : ∀ cond l, ∃ front, e.written (.jumpIf cond l) = front ++ [.label l] ∧ e.size front = offset ∧ ∀ l, .label l ∉ front
  other : ∀ op, (∀ cond l, op ≠ .jumpIf cond l) → ∀ l, .label l ∉ e.written op

namespace Branches

variable {offset : Nat} {ops : List MicroOp}

theorem fields_jumpIf (h : e.Branches offset) (cond : Cond) (l : Label) (pos : Nat) :
    e.fields pos (e.written (.jumpIf cond l)) = [(pos + offset, l)] := by
  obtain ⟨front, hwritten, hsize, hfront⟩ := h.jump cond l
  rw [hwritten, fields_append, fields_eq_nil hfront, hsize]
  rfl

theorem size_jumpIf (h : e.Branches offset) (cond : Cond) (l : Label) : e.size (e.written (.jumpIf cond l)) = offset + e.labelSize := by
  obtain ⟨front, hwritten, hsize, -⟩ := h.jump cond l
  rw [hwritten, size_append, hsize]
  rfl

/-- The label fields of a block are those of its jumps. -/
theorem mem_fields_iff (h : e.Branches offset) {field : Nat} : (field, l) ∈ e.fields pos (ops.flatMap e.written) ↔
    ∃ before cond after, ops = before ++ .jumpIf cond l :: after ∧ field = pos + e.codeSize before + offset := by
  constructor
  · intro hmem
    induction ops generalizing pos with
    | nil => cases hmem
    | cons op ops ih =>
        rw [List.flatMap_cons, fields_append, List.mem_append] at hmem
        rcases hmem with hmem | hmem
        · by_cases hop : ∃ cond l', op = .jumpIf cond l'
          · obtain ⟨cond, l', rfl⟩ := hop
            rw [h.fields_jumpIf, List.mem_singleton] at hmem
            cases hmem
            exact ⟨[], cond, ops, rfl, rfl⟩
          · rw [fields_eq_nil (h.other op fun cond l' heq => hop ⟨cond, l', heq⟩)] at hmem
            cases hmem
        · obtain ⟨before, cond, after, rfl, rfl⟩ := ih hmem
          refine ⟨op :: before, cond, after, rfl, ?_⟩
          rw [codeSize_cons]
          omega
  · rintro ⟨before, cond, after, rfl, rfl⟩
    rw [List.flatMap_append, fields_append, List.flatMap_cons, fields_append, h.fields_jumpIf]
    exact List.mem_append_right _ (List.mem_append_left _ List.mem_cons_self)

/-- Only jumps use labels. -/
theorem jumpIf_mem (h : e.Branches offset) (hl : .label l ∈ ops.flatMap e.written) : ∃ cond, .jumpIf cond l ∈ ops := by
  obtain ⟨field, hfield⟩ := exists_mem_fields hl 0
  obtain ⟨before, cond, after, rfl, -⟩ := h.mem_fields_iff.mp hfield
  exact ⟨cond, by simp⟩

end Branches

end HostEncoding

theorem Threaded.branches_encoding : encoding.Branches 2 where
  sized := sized_encoding
  jump cond l := ⟨[.raw [22, cond.code.toUInt8]], rfl, rfl, by simp⟩
  other op hop l := by
    cases op with
    | jumpIf cond l' => exact absurd rfl (hop cond l')
    | act a => cases a <;> simp [HostEncoding.written, encoding, pieces, action, u16, u32, reg]
    | _ => simp [HostEncoding.written, encoding, pieces, u32, u64]

namespace X64

variable (l : Label)

theorem sized_encoding (epilogue : Nat) : (encoding epilogue).Sized :=
  fun _ _ _ => length_littleEndian 4 _

theorem label_not_mem_movImm (reg : UInt8) (value : UInt32) : .label l ∉ movImm reg value := by
  unfold movImm
  split <;> simp [u8, imm, Threaded.u32]

theorem label_not_mem_widthMark (w : Width) : .label l ∉ widthMark w := by
  cases w <;> simp [widthMark, u8]

theorem label_not_mem_cpuField (opcode : List UInt8) (reg : UInt8) (disp : Nat) : .label l ∉ cpuField opcode reg disp := by
  simp [cpuField, u8, imm, Threaded.u32]

theorem label_not_mem_captureFlags (mask clear : UInt32) : .label l ∉ captureFlags mask clear := by
  simp [captureFlags, label_not_mem_cpuField, imm, Threaded.u32]

theorem label_not_mem_action (epilogue : Nat) (a : Action) : .label l ∉ action epilogue a := by
  cases a with
  | lea dst addr =>
      obtain ⟨seg, base, index, scale, disp, addr16⟩ := addr
      have hshift : Piece.label l ∉ if trailingZeros scale = 0 then [] else
          [Piece.raw [0xC1, modrm 3 4 rax, (trailingZeros scale).toUInt8]] := by
        split <;> simp
      cases base <;> cases index <;> cases addr16 <;>
        simp [action, lea, label_not_mem_movImm, label_not_mem_cpuField, andImm, imm, Threaded.u32, hshift]
  | unary op w dst =>
      cases op <;> simp [action, unary, unaryFlags, label_not_mem_widthMark, label_not_mem_captureFlags]
  | alu op w dst src =>
      have hcarry : Piece.label l ∉ if op.readsCarry then cpuField [0x0F, 0xBA] 4 Cpu.layout.eflags ++ [u8 0] else [] := by
        split <;> simp [label_not_mem_cpuField, u8]
      simp [action, alu, label_not_mem_widthMark, label_not_mem_captureFlags, hcarry]
  | _ =>
      simp [action, label_not_mem_movImm, label_not_mem_cpuField, label_not_mem_widthMark, frameField, exit, jumpTo, movReg, call,
        callOrLeave, andImm, u8, imm, imm64, Threaded.u32, Threaded.u64]

theorem branches_encoding (epilogue : Nat) : (encoding epilogue).Branches 16 where
  sized := sized_encoding epilogue
  jump cond l := by
    refine ⟨cpuField [0x8B] rax Cpu.layout.eflags ++
      [u8 0x25, imm Flag.status, .raw [0x50, 0x9D], .raw [0x0F, 0x80 + cond.code.toUInt8]], ?_, rfl, fun l' => ?_⟩
    · simp [HostEncoding.written, encoding, pieces]
    · simp [label_not_mem_cpuField, u8, imm, Threaded.u32]
  other op hop l := by
    cases op with
    | jumpIf cond l' => exact absurd rfl (hop cond l')
    | act a => exact label_not_mem_action l epilogue a
    | exit code => simp [HostEncoding.written, encoding, pieces, exit, jumpTo, label_not_mem_movImm, u8]
    | _ => simp [HostEncoding.written, encoding, pieces, imm64, Threaded.u64]

end X64

/-! ### Resolving labels -/

namespace Assembly

variable {e : HostEncoding} {bound : Array (Option Nat)} {fields : List (Nat × Label)} {b b' : CodeBuffer}

/-- Filling in changes no bytes but those of the fields. -/
theorem byte_resolve_of_outside (he : e.Sized) {r : Except EmitError Unit} (h : resolve e bound fields b = .ok (r, b')) {j : Nat}
    (hj : ∀ field l, (field, l) ∈ fields → j < field ∨ field + e.labelSize ≤ j) : b'.byte j = b.byte j := by
  induction fields generalizing b with
  | nil =>
      cases h
      rfl
  | cons first fields ih =>
      obtain ⟨position, l⟩ := first
      unfold resolve at h
      split at h
      · cases h
      · cases h
        rfl
      · rw [ih h fun field l hmem => hj field l (List.mem_cons_of_mem _ hmem)]
        apply CodeBuffer.byte_patch_of_outside
        rw [he]
        exact hj position l List.mem_cons_self

theorem pos_resolve {r : Except EmitError Unit} (h : resolve e bound fields b = .ok (r, b')) : b'.pos = b.pos := by
  induction fields generalizing b with
  | nil =>
      cases h
      rfl
  | cons first fields ih =>
      obtain ⟨position, l⟩ := first
      unfold resolve at h
      split at h
      · cases h
      · cases h
        rfl
      · rw [ih h, CodeBuffer.pos_patch]

/-- Filling in stops at the first field whose label is bound nowhere. -/
theorem resolve_of_unbound {before after : List (Nat × Label)} {field : Nat} {l : Label}
    (hbefore : ∀ field l, (field, l) ∈ before → ∃ target, bound[l]? = some (some target)) (hl : bound[l]? = some none)
    (b : CodeBuffer) : ∃ b', resolve e bound (before ++ (field, l) :: after) b = .ok (.error (.unboundLabel l), b') := by
  induction before generalizing b with
  | nil =>
      refine ⟨b, ?_⟩
      rw [List.nil_append, resolve, hl]
  | cons first before ih =>
      obtain ⟨position, l'⟩ := first
      obtain ⟨target, htarget⟩ := hbefore position l' List.mem_cons_self
      rw [List.cons_append, resolve, htarget]
      exact ih (fun field l hmem => hbefore field l (List.mem_cons_of_mem _ hmem)) _

end Assembly

namespace MicroOp

variable {ops : List MicroOp}

/-- A jump to a label that is bound nowhere. -/
def stray (ops : List MicroOp) : MicroOp → Bool
  | jumpIf _ l => !ops.contains (bind l)
  | _ => false

/-- Unless the label of every jump is bound, there is a first one whose label is not. -/
theorem exists_first_stray (h : ¬∀ cond l, jumpIf cond l ∈ ops → bind l ∈ ops) :
    ∃ before cond l after, ops = before ++ jumpIf cond l :: after ∧ bind l ∉ ops ∧
      ∀ cond' l', jumpIf cond' l' ∈ before → bind l' ∈ ops := by
  cases hfind : ops.find? (stray ops) with
  | none =>
      refine absurd (fun cond l hmem => ?_) h
      simpa [stray] using List.find?_eq_none.mp hfind _ hmem
  | some op =>
      obtain ⟨hop, before, after, hsplit, hbefore⟩ := List.find?_eq_some_iff_append.mp hfind
      cases op with
      | jumpIf cond l =>
          refine ⟨before, cond, l, after, hsplit, by simpa [stray] using hop, fun cond' l' hmem => ?_⟩
          simpa [stray] using hbefore _ hmem
      | _ => cases hop

theorem beforeBind_append {upto rest : List MicroOp} {l : Label} (hrest : bind l ∉ rest) :
    beforeBind l (upto ++ bind l :: rest) = upto := by
  induction upto with
  | nil => rw [List.nil_append, beforeBind, if_neg (by simpa using hrest)]
  | cons op upto ih => rw [List.cons_append, beforeBind, if_pos (by simp), ih]

end MicroOp

namespace Assembly

open MicroOp

variable {e : HostEncoding} {offset labels : Nat} {ops : List MicroOp} {b : CodeBuffer} {a : Assembly}

theorem fields_ops (ha : ops.foldlM (Assembly.op e) { buffer := b, bound := Array.replicate labels none } = .ok a) :
    a.fields = e.fields b.pos (ops.flatMap e.written) :=
  (Appends.ops ha).fields

/-- If the labels of all jumps are bound, every field is filled in for the place where its label is bound last. -/
theorem resolve_ops (he : e.Branches offset)
    (ha : ops.foldlM (Assembly.op e) { buffer := b, bound := Array.replicate labels none } = .ok a)
    (hbound : ∀ cond l, .jumpIf cond l ∈ ops → .bind l ∈ ops) :
    ∃ b', resolve e a.bound a.fields a.buffer = .ok (.ok (), b') ∧
      Fills e (fun l => b.pos + e.codeSize (beforeBind l ops)) b.pos (ops.flatMap e.written) a.buffer b' := by
  rw [fields_ops ha]
  refine resolve_spec he.sized (fun l hl => ?_) b.pos a.buffer
  obtain ⟨cond, hjump⟩ := he.jumpIf_mem hl
  exact bound_ops_of_mem ha (hbound cond l hjump)

/-- The first jump whose label is bound nowhere is reported. -/
theorem resolve_ops_of_stray (he : e.Branches offset)
    (ha : ops.foldlM (Assembly.op e) { buffer := b, bound := Array.replicate labels none } = .ok a) {before after : List MicroOp}
    {cond : Cond} {l : Label} (hsplit : ops = before ++ .jumpIf cond l :: after) (hl : .bind l ∉ ops) (hlabel : l < labels)
    (hbefore : ∀ cond' l', .jumpIf cond' l' ∈ before → .bind l' ∈ ops) :
    ∃ b', resolve e a.bound a.fields a.buffer = .ok (.error (.unboundLabel l), b') := by
  have hfields : a.fields = e.fields b.pos (before.flatMap e.written) ++ (b.pos + e.codeSize before + offset, l) ::
      e.fields (b.pos + e.codeSize before + e.size (e.written (.jumpIf cond l))) (after.flatMap e.written) := by
    rw [fields_ops ha, hsplit, List.flatMap_append, HostEncoding.fields_append, List.flatMap_cons, HostEncoding.fields_append,
      he.fields_jumpIf]
    rfl
  rw [hfields]
  refine resolve_of_unbound (fun field l' hmem => ?_) ?_ a.buffer
  · obtain ⟨front, cond', rest, rfl, -⟩ := he.mem_fields_iff.mp hmem
    exact ⟨_, bound_ops_of_mem ha (hbefore cond' l' (by simp))⟩
  · rw [bound_ops_of_not_mem ha hl, Array.getElem?_replicate, if_pos hlabel]

/-- The field of a jump holds what leads to the place where its label is bound last. -/
theorem Fills.holds_field (he : e.Branches offset)
    (ha : ops.foldlM (Assembly.op e) { buffer := b, bound := Array.replicate labels none } = .ok a) (hb : b.Backed)
    (hfit : b.pos + e.codeSize ops ≤ b.capacity) {target : Label → Nat} {b' : CodeBuffer}
    (h : Fills e target b.pos (ops.flatMap e.written) a.buffer b') {before after : List MicroOp} {cond : Cond} {l : Label}
    (hsplit : ops = before ++ .jumpIf cond l :: after) :
    b'.Holds (b.pos + e.codeSize before + offset) (e.labelField b.base (b.pos + e.codeSize before + offset) (target l)) := by
  have happends := Appends.ops ha
  have hcapacity : b.pos + e.size (ops.flatMap e.written) ≤ a.buffer.capacity := by
    rw [happends.within.capacity]
    exact hfit
  have hblank := happends.holds hb (by rw [happends.pos]; exact hfit)
  have hbase : a.buffer.base = b.base := happends.within.base
  have hholds := h.holds (happends.within.backed hb) hcapacity (hbase ▸ hblank)
  have hop := HostEncoding.holds_op (fun field l => he.sized a.buffer.base field (target l)) hsplit hholds
  obtain ⟨front, hwritten, hsize, -⟩ := he.jump cond l
  rw [hwritten, HostEncoding.render_append] at hop
  have hfield := hop.right
  rw [HostEncoding.length_render (fun field l => he.sized a.buffer.base field (target l)), hsize, hbase, HostEncoding.render,
    HostEncoding.render, List.append_nil] at hfield
  exact hfield

end Assembly

namespace Emitter

/-- Where the label field of a conditional jump stands in the code of the jump. -/
def jumpField (e : Emitter) : Nat :=
  match e.backend with
  | .portable => 2
  | .native => 16

/-- The label field at a position leads to another position: it holds the host address, or the signed distance from its
end. -/
def Leads (e : Emitter) (b : CodeBuffer) (field target : Nat) : Prop :=
  match e.backend with
  | .portable => b.word? 8 field = some ((b.base + target) % 2 ^ 64)
  | .native => ∃ distance : BitVec 32, b.word? 4 field = some distance.toNat ∧ (field + 4 : Int) + distance.toInt = target

theorem branches_encoding (e : Emitter) : e.encoding.Branches e.jumpField := by
  unfold encoding jumpField
  cases e.backend with
  | portable => exact Threaded.branches_encoding
  | native => exact X64.branches_encoding e.epilogue

theorem four_le_labelSize (e : Emitter) : 4 ≤ e.encoding.labelSize := by
  unfold encoding
  cases e.backend with
  | portable => exact Nat.le_add_left 4 4
  | native => exact le_rfl

/-- What is filled in leads to the label, unless it is too far away. -/
theorem leads_of_holds {e : Emitter} {b : CodeBuffer} {field target : Nat} (hahead : target < field + 4 + 2 ^ 31)
    (hbehind : field + 4 ≤ target + 2 ^ 31) (h : b.Holds field (e.encoding.labelField b.base field target)) :
    e.Leads b field target := by
  unfold encoding at h
  unfold Leads
  cases hbackend : e.backend with
  | portable =>
      rw [hbackend] at h
      exact CodeBuffer.word?_eq_of_holds h
  | native =>
      rw [hbackend] at h
      have hword := CodeBuffer.word?_eq_of_holds h
      refine ⟨BitVec.ofInt 32 ((target : Int) - (field + 4 : Nat)), ?_, ?_⟩
      · rw [BitVec.toNat_ofInt, hword]
        congr 1
        omega
      · rw [BitVec.toInt_ofInt, Int.bmod_eq_of_le (by omega) (by omega)]
        omega

/-- Labels are resolved on hosts of either kind. Emission succeeds just if the label of every jump is bound, and otherwise
reports the first jump whose label is not. If the code fits, every jump leads to the place where its label is bound last.
Outside the label fields of the jumps the code is what was there before labels were resolved. -/
theorem emitBlock_resolves (e : Emitter) {labels : Nat} {ops : List MicroOp} {b : CodeBuffer} (hb : b.Backed)
    (hlabels : ∀ l, .bind l ∈ ops ∨ (∃ cond, .jumpIf cond l ∈ ops) → l < labels) (hsize : e.encoding.codeSize ops < 2 ^ 31) :
    ∃ (a : Assembly) (r : Except EmitError Unit) (b' : CodeBuffer),
      ops.foldlM (Assembly.op e.encoding) { buffer := b, bound := Array.replicate labels none } = .ok a ∧
      e.emitBlock labels ops b = .ok (r, b') ∧ b.Within b' ∧ b'.pos = b.pos + e.encoding.codeSize ops ∧
      (r = .ok () ↔ ∀ cond l, .jumpIf cond l ∈ ops → .bind l ∈ ops) ∧
      (∀ err, r = .error err → ∃ before cond l after, ops = before ++ .jumpIf cond l :: after ∧ .bind l ∉ ops ∧
        (∀ cond' l', .jumpIf cond' l' ∈ before → .bind l' ∈ ops) ∧ err = .unboundLabel l) ∧
      (r = .ok () → b'.overflowed = false → ∀ before cond l after upto rest, ops = before ++ .jumpIf cond l :: after →
        ops = upto ++ .bind l :: rest → .bind l ∉ rest →
        e.Leads b' (b.pos + e.encoding.codeSize before + e.jumpField) (b.pos + e.encoding.codeSize upto)) ∧
      ∀ j, (∀ before cond l after, ops = before ++ .jumpIf cond l :: after →
        j < b.pos + e.encoding.codeSize before + e.jumpField ∨
          b.pos + e.encoding.codeSize before + e.jumpField + e.encoding.labelSize ≤ j) → b'.byte j = a.buffer.byte j := by
  have he := e.branches_encoding
  obtain ⟨a, ha⟩ := Assembly.exists_ops (e := e.encoding) (a := { buffer := b, bound := Array.replicate labels none })
    (fun l hl => by rw [Array.size_replicate]; exact hlabels l (.inl hl))
  have hemit : e.emitBlock labels ops b = Assembly.resolve e.encoding a.bound a.fields a.buffer := by
    unfold emitBlock assemble
    rw [ha]
    rfl
  -- What holds of every outcome: the cursor, the window and the bytes between the fields.
  have hany : ∀ {r b'}, Assembly.resolve e.encoding a.bound a.fields a.buffer = .ok (r, b') →
      b.Within b' ∧ b'.pos = b.pos + e.encoding.codeSize ops ∧
      ∀ j, (∀ before cond l after, ops = before ++ .jumpIf cond l :: after →
        j < b.pos + e.encoding.codeSize before + e.jumpField ∨
          b.pos + e.encoding.codeSize before + e.jumpField + e.encoding.labelSize ≤ j) → b'.byte j = a.buffer.byte j := by
    intro r b' hr
    refine ⟨within_assemble (hemit.trans hr), (Assembly.pos_resolve hr).trans (Assembly.Appends.ops ha).pos, fun j hj => ?_⟩
    refine Assembly.byte_resolve_of_outside he.sized hr fun field l hmem => ?_
    rw [Assembly.fields_ops ha] at hmem
    obtain ⟨before, cond, after, hsplit, rfl⟩ := he.mem_fields_iff.mp hmem
    exact hj before cond l after hsplit
  by_cases hbound : ∀ cond l, .jumpIf cond l ∈ ops → .bind l ∈ ops
  · obtain ⟨b', hr, hfills⟩ := Assembly.resolve_ops he ha hbound
    obtain ⟨hwithin, hpos, hother⟩ := hany hr
    refine ⟨a, .ok (), b', ha, hemit.trans hr, hwithin, hpos, iff_of_true rfl hbound, by simp, ?_, hother⟩
    intro _ hfit before cond l after upto rest hjump hbind hlast
    rw [CodeBuffer.overflowed, decide_eq_false_iff_not, Nat.not_lt, hpos, hwithin.capacity] at hfit
    have hholds := hfills.holds_field he ha hb hfit hjump
    have hupto : MicroOp.beforeBind l ops = upto := hbind ▸ MicroOp.beforeBind_append hlast
    rw [hupto, ← hwithin.base] at hholds
    have hfield : e.encoding.codeSize before + e.jumpField + 4 ≤ e.encoding.codeSize ops := by
      have hlabel := e.four_le_labelSize
      rw [hjump, HostEncoding.codeSize_append, HostEncoding.codeSize_cons, he.size_jumpIf]
      omega
    have htarget : e.encoding.codeSize upto ≤ e.encoding.codeSize ops := by
      rw [hbind, HostEncoding.codeSize_append]
      exact Nat.le_add_right ..
    exact leads_of_holds (by omega) (by omega) hholds
  · obtain ⟨before, cond, l, after, hsplit, hl, hbefore⟩ := MicroOp.exists_first_stray hbound
    have hmem : .jumpIf cond l ∈ ops := by rw [hsplit]; simp
    obtain ⟨b', hr⟩ := Assembly.resolve_ops_of_stray he ha hsplit hl (hlabels l (.inr ⟨cond, hmem⟩)) hbefore
    obtain ⟨hwithin, hpos, hother⟩ := hany hr
    refine ⟨a, _, b', ha, hemit.trans hr, hwithin, hpos, iff_of_false (by simp) hbound, fun err herr => ?_, by simp, hother⟩
    cases herr
    exact ⟨before, cond, l, after, hsplit, hl, hbefore, rfl⟩

/-- A jump ahead and a jump back to a label that is bound twice. -/
def backAndForth : List MicroOp :=
  [.bind 0, .jumpIf .e 1, .bind 0, .jumpIf .e 0, .bind 1]

theorem emitBlock_resolves_backAndForth : (∀ l, .bind l ∈ backAndForth ∨ (∃ cond, .jumpIf cond l ∈ backAndForth) → l < 2) ∧
    (X64.encoding 0).codeSize backAndForth = 40 ∧
    ∃ b', emitBlock { backend := .native } 2 backAndForth (.fresh 40 0) = .ok (.ok (), b') ∧
      Leads { backend := .native } b' 16 40 ∧ Leads { backend := .native } b' 36 20 := by
  have hlabels : ∀ l, .bind l ∈ backAndForth ∨ (∃ cond, .jumpIf cond l ∈ backAndForth) → l < 2 := by
    simp only [backAndForth, List.mem_cons, List.not_mem_nil, MicroOp.bind.injEq, MicroOp.jumpIf.injEq, reduceCtorEq, or_false,
      false_or]
    rintro l ((rfl | rfl | rfl) | ⟨cond, ⟨-, rfl⟩ | ⟨-, rfl⟩⟩) <;> decide
  have hsize : (X64.encoding 0).codeSize backAndForth = 40 := rfl
  have hb : (CodeBuffer.fresh 40 0).Backed := le_rfl
  obtain ⟨a, r, b', -, hemit, hwithin, hpos, hok, -, hleads, -⟩ :=
    emitBlock_resolves { backend := .native } hb hlabels (hsize.trans_lt (by decide))
  have hr : r = .ok () := by
    simp only [hok, backAndForth, List.mem_cons, List.not_mem_nil, MicroOp.bind.injEq, MicroOp.jumpIf.injEq, reduceCtorEq,
      or_false, false_or]
    rintro cond l (⟨-, rfl⟩ | ⟨-, rfl⟩) <;> decide
  have hfit : b'.overflowed = false := by
    rw [CodeBuffer.overflowed, hpos, hwithin.capacity]
    rfl
  refine ⟨hlabels, hsize, b', hr ▸ hemit, ?_, ?_⟩
  · exact hleads hr hfit [.bind 0] .e 1 [.bind 0, .jumpIf .e 0, .bind 1] [.bind 0, .jumpIf .e 1, .bind 0, .jumpIf .e 0] [] rfl rfl
      (by simp)
  · exact hleads hr hfit [.bind 0, .jumpIf .e 1, .bind 0] .e 0 [.bind 1] [.bind 0, .jumpIf .e 1] [.jumpIf .e 0, .bind 1] rfl rfl
      (by simp)

end Emitter

end Recompiler
