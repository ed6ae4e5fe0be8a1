import Mathlib
import Recompiler.Guest.Encoding.Decode

/-! What a decoded instruction depends on. Reading an instruction looks at no byte behind its end, so the
instruction is the same wherever its bytes are followed by other ones; and from fifteen bytes on, some instruction is
always found. Together: instructions are a code in which none begins another, and a proper beginning of one is reported
as truncated. -/

namespace Recompiler

namespace Encoding

variable {α β : Type} {bs bs' : List UInt8} {pos : Nat}

namespace Reader

@[simp] theorem pure_apply (a : α) (bytes : List UInt8) (pos : Nat) : (pure a : Reader α) bytes pos = .ok (a, pos) := rfl

theorem bind_apply (r : Reader α) (f : α → Reader β) (bytes : List UInt8) (pos : Nat) :
    (r >>= f) bytes pos =
      match r bytes pos with
      | .ok (a, pos') => f a bytes pos'
      | .error e => .error e := rfl

/-- From a position on, a reader goes forward, looks only at what it passes, and runs out of bytes only if there are
fewer than an instruction can have. -/
structure Local (r : Reader α) (pos : Nat) : Prop where
  ok : ∀ bytes a pos', pos ≤ bytes.length → pos ≤ maxLength → r bytes pos = .ok (a, pos') →
    pos ≤ pos' ∧ pos' ≤ bytes.length ∧ pos' ≤ maxLength ∧
      ∀ bytes', bytes'.take pos' = bytes.take pos' → r bytes' pos = .ok (a, pos')
  short : ∀ bytes, pos ≤ bytes.length → pos ≤ maxLength → r bytes pos = .error .endOfBytes → bytes.length < maxLength
  long : ∀ bytes, pos ≤ bytes.length → pos ≤ maxLength → r bytes pos = .error .tooLong →
    maxLength ≤ bytes.length ∧ ∀ bytes', bytes'.take maxLength = bytes.take maxLength → r bytes' pos = .error .tooLong

theorem take_of_le {n k : Nat} (h : bs'.take k = bs.take k) (hn : n ≤ k) : bs'.take n = bs.take n := by
  have := congrArg (List.take n) h
  rwa [List.take_take, List.take_take, Nat.min_eq_left hn] at this

theorem Local.pure (a : α) (pos : Nat) : Local (pure a : Reader α) pos where
  ok bytes a' pos' hpos hmax h := by
    obtain ⟨rfl, rfl⟩ : a = a' ∧ pos = pos' := by simpa using h
    exact ⟨le_rfl, hpos, hmax, fun _ _ => rfl⟩
  short bytes hpos hmax h := by cases h
  long bytes hpos hmax h := by cases h

/-- Reading on, from wherever the first reader can have come to. -/
theorem Local.bind_of_reached {r : Reader α} {f : α → Reader β} (hr : Local r pos)
    (hf : ∀ bytes a pos', r bytes pos = .ok (a, pos') → Local (f a) pos') : Local (r >>= f) pos where
  ok bytes b pos'' hpos hmax h := by
    rw [bind_apply] at h
    split at h
    · rename_i a pos' hra
      obtain ⟨hle, hlen, hmax', hstable⟩ := hr.ok bytes a pos' hpos hmax hra
      obtain ⟨hle', hlen', hmax'', hstable'⟩ := (hf bytes a pos' hra).ok bytes b pos'' hlen hmax' h
      refine ⟨hle.trans hle', hlen', hmax'', fun bytes' htake => ?_⟩
      rw [bind_apply, hstable bytes' (take_of_le htake hle')]
      exact hstable' bytes' htake
    · cases h
  short bytes hpos hmax h := by
    rw [bind_apply] at h
    split at h
    · rename_i a pos' hra
      obtain ⟨-, hlen, hmax', -⟩ := hr.ok bytes a pos' hpos hmax hra
      exact (hf bytes a pos' hra).short bytes hlen hmax' h
    · rename_i e hra
      cases h
      exact hr.short bytes hpos hmax hra
  long bytes hpos hmax h := by
    rw [bind_apply] at h
    split at h
    · rename_i a pos' hra
      obtain ⟨-, hlen, hmax', hstable⟩ := hr.ok bytes a pos' hpos hmax hra
      obtain ⟨hlong, hstable'⟩ := (hf bytes a pos' hra).long bytes hlen hmax' h
      refine ⟨hlong, fun bytes' htake => ?_⟩
      rw [bind_apply, hstable bytes' (take_of_le htake hmax')]
      exact hstable' bytes' htake
    · rename_i e hra
      cases h
      obtain ⟨hlong, hstable⟩ := hr.long bytes hpos hmax hra
      exact ⟨hlong, fun bytes' htake => by rw [bind_apply, hstable bytes' htake]⟩

theorem Local.bind {r : Reader α} {f : α → Reader β} (hr : Local r pos) (hf : ∀ a pos', Local (f a) pos') :
    Local (r >>= f) pos :=
  hr.bind_of_reached fun _ a pos' _ => hf a pos'

theorem Local.position (pos : Nat) : Local position pos where
  ok bytes a pos' hpos hmax h := by
    obtain ⟨rfl, rfl⟩ : pos = a ∧ pos = pos' := by simpa [Reader.position] using h
    exact ⟨le_rfl, hpos, hmax, fun _ _ => rfl⟩
  short bytes hpos hmax h := by cases h
  long bytes hpos hmax h := by cases h

theorem getElem?_of_take {k : Nat} (h : bs'.take k = bs.take k) (hpos : pos < k) : bs'[pos]? = bs[pos]? := by
  have := congrArg (·[pos]?) h
  simpa only [List.getElem?_take, hpos, if_true] using this

theorem Local.byte (pos : Nat) : Local byte pos where
  ok bytes b pos' hpos hmax h := by
    unfold Reader.byte at h
    split at h
    · cases h
    · rename_i hlt
      split at h
      · rename_i b' hb
        cases h
        obtain ⟨hlen, -⟩ := List.getElem?_eq_some_iff.mp hb
        refine ⟨Nat.le_succ pos, hlen, Nat.lt_of_not_le hlt, fun bytes' htake => ?_⟩
        rw [Reader.byte, if_neg hlt, getElem?_of_take htake (Nat.lt_succ_self pos), hb]
      · cases h
  short bytes hpos hmax h := by
    unfold Reader.byte at h
    split at h
    · cases h
    · rename_i hlt
      split at h
      · cases h
      · rename_i hnone
        exact Nat.lt_of_le_of_lt (List.getElem?_eq_none_iff.mp hnone) (Nat.lt_of_not_le hlt)
  long bytes hpos hmax h := by
    unfold Reader.byte at h
    split at h
    · rename_i hge
      exact ⟨hge.trans hpos, fun bytes' _ => by rw [Reader.byte, if_pos hge]⟩
    · split at h <;> cases h

theorem Local.bytes (n pos : Nat) : Local (bytes n) pos := by
  induction n generalizing pos with
  | zero => exact .pure [] pos
  | succ n ih => exact (Local.byte pos).bind fun _ _ => (ih _).bind fun _ _ => .pure _ _

theorem Local.skip (n pos : Nat) : Local (skip n) pos :=
  (Local.bytes n pos).bind fun _ _ => .pure _ _

theorem Local.word (w : Width) (pos : Nat) : Local (word w) pos :=
  (Local.bytes _ pos).bind fun _ _ => .pure _ _

theorem Local.signedWord (w : Width) (pos : Nat) : Local (signedWord w) pos :=
  (Local.word w pos).bind fun _ _ => .pure _ _

end Reader

open Reader

/-! ### Operands -/

theorem ModRM.local_read (pos : Nat) : Local ModRM.read pos :=
  (Local.byte pos).bind fun _ _ => .pure _ _

theorem local_immediate (w size : Width) (pos : Nat) : Local (immediate w size) pos :=
  (Local.position pos).bind fun _ _ => (Local.word size _).bind fun _ _ => .pure _ _

namespace Context

variable (ctx : Context) (m : ModRM)

theorem local_displacement (mode : Fin 4) (full : Width) (pos : Nat) : Local (displacement mode full) pos := by
  unfold displacement
  split
  · exact .signedWord .w8 pos
  · exact .word full pos
  · exact .pure 0 pos

theorem local_address16 (pos : Nat) : Local (ctx.address16 m) pos := by
  unfold address16
  split
  · exact (Local.word .w16 pos).bind fun _ _ => .pure _ _
  · exact (local_displacement _ _ pos).bind fun _ _ => .pure _ _

theorem local_address32 (pos : Nat) : Local (ctx.address32 m) pos := by
  unfold address32
  split
  · refine (ModRM.local_read pos).bind fun sib pos' => ?_
    dsimp only
    split
    · exact (Local.word .w32 pos').bind fun _ _ => .pure _ _
    · exact (local_displacement _ _ pos').bind fun _ _ => .pure _ _
  · split
    · exact (Local.word .w32 pos).bind fun _ _ => .pure _ _
    · exact (local_displacement _ _ pos).bind fun _ _ => .pure _ _

theorem local_memory (pos : Nat) : Local (ctx.memory m) pos := by
  unfold memory
  split
  · exact ctx.local_address32 m pos
  · exact ctx.local_address16 m pos

theorem local_operand (w : Width) (pos : Nat) : Local (ctx.operand m w) pos := by
  unfold operand
  split
  · exact .pure _ pos
  · exact (ctx.local_memory m pos).bind fun _ _ => .pure _ _

theorem local_relative (size : Width) (pos : Nat) : Local (ctx.relative size) pos :=
  (Local.signedWord size pos).bind fun _ _ => (Local.position _).bind fun _ _ => .pure _ _

end Context

/-! ### Forms -/

theorem Entry.local_read (ctx : Context) (m : ModRM) (e : Entry) (pos : Nat) : Local (e.read ctx m) pos := by
  have hoperand := fun w => ctx.local_operand m w pos
  cases e with
  | undefined => exact .pure _ pos
  | undefinedAfter n => exact (Local.skip n pos).bind fun _ _ => .pure _ _
  | undefinedOperand => exact (hoperand _).bind fun _ _ => .pure _ _
  | fixed => exact .pure _ pos
  | operand lockable n => exact (hoperand _).bind fun _ _ => (Local.skip n _).bind fun _ _ => .pure _ _
  | nop => exact (hoperand _).bind fun _ _ => .pure _ _
  | fpu => exact (hoperand _).bind fun _ _ => .pure _ _
  | store f w => exact (hoperand w).bind fun _ _ => .pure _ _
  | load f w => exact (hoperand w).bind fun _ _ => .pure _ _
  | immediate f w size => exact (hoperand w).bind fun _ _ => (local_immediate w size _).bind fun _ _ => .pure _ _
  | unary op w => exact (hoperand w).bind fun _ _ => .pure _ _
  | div signed w => exact (hoperand w).bind fun _ _ => .pure _ _
  | lea =>
      unfold Entry.read
      dsimp only
      split
      · exact .pure _ pos
      · exact (ctx.local_memory m pos).bind fun _ _ => .pure _ _
  | push =>
      refine (hoperand _).bind fun op _ => ?_
      cases op <;> exact .pure _ _
  | pop =>
      refine (hoperand _).bind fun op _ => ?_
      cases op <;> exact .pure _ _

theorem Form.local_read (ctx : Context) (f : Form) (pos : Nat) : Local (f.read ctx) pos := by
  cases f with
  | bare => exact .pure _ pos
  | trailing n => exact (Local.skip n pos).bind fun _ _ => .pure _ _
  | farPointer => exact (Local.skip _ pos).bind fun _ _ => .pure _ _
  | modrm select => exact (ModRM.local_read pos).bind fun m _ => Entry.local_read ctx m (select m) _
  | accumulator op w => exact (local_immediate w w pos).bind fun _ _ => .pure _ _
  | absolute w toMemory => exact (Local.word _ pos).bind fun _ _ => .pure _ _
  | movImm w n => exact (local_immediate w w pos).bind fun _ _ => .pure _ _
  | unaryReg op n => exact .pure _ pos
  | pushReg n => exact .pure _ pos
  | popReg n => exact .pure _ pos
  | pushImm size => exact (local_immediate _ size pos).bind fun _ _ => .pure _ _
  | jcc cond size => exact (ctx.local_relative size pos).bind fun _ _ => .pure _ _
  | jmp size => exact (ctx.local_relative size pos).bind fun _ _ => .pure _ _
  | call size => exact (ctx.local_relative size pos).bind fun _ _ => .pure _ _
  | ret => exact .pure _ pos
  | retImm => exact (Local.word .w16 pos).bind fun _ _ => .pure _ _
  | iret => exact .pure _ pos
  | nop =>
      show Local (if ctx.rep = some .whileEqual then _ else _) pos
      split <;> exact .pure _ pos

/-! ### Instructions -/

theorem byte_reached {b : UInt8} {pos' : Nat} (h : Reader.byte bs pos = .ok (b, pos')) : pos' = pos + 1 := by
  unfold Reader.byte at h
  split at h
  · cases h
  · split at h <;> cases h
    rfl

/-- Prefixes run out of fuel only where the instruction is too long anyway. -/
theorem Prefixes.local_read {fuel : Nat} (p : Prefixes) (h : maxLength ≤ pos + fuel) : Local (Prefixes.read fuel p) pos := by
  induction fuel generalizing p pos with
  | zero =>
      refine ⟨fun _ _ _ _ _ h' => ?_, fun _ _ _ h' => ?_, fun bytes hpos _ _ => ⟨Nat.le_trans h hpos, fun _ _ => rfl⟩⟩
      · cases h'
      · cases h'
  | succ fuel ih =>
      refine (Local.byte pos).bind_of_reached fun bytes b pos' hb => ?_
      obtain rfl := byte_reached hb
      cases hadd : p.add? b with
      | none => exact .pure _ _
      | some p' => exact ih p' (by omega)

theorem local_readOpcode (ctx : Context) (op : UInt8) (pos : Nat) : Local (readOpcode ctx op) pos := by
  unfold readOpcode
  split
  · exact (Local.byte pos).bind fun _ _ => Form.local_read _ _ _
  · exact Form.local_read _ _ pos

theorem local_readInstruction (ip : UInt32) (code32 : Bool) : Local (readInstruction ip code32) 0 :=
  (Prefixes.local_read {} (by decide)).bind fun _ _ => (local_readOpcode _ _ _).bind fun _ _ => .pure _ _

theorem Prefixes.pos_of_read {fuel : Nat} (hfuel : maxLength ≤ fuel + 1) {p : Prefixes} {r : Prefixes × UInt8} {pos' : Nat}
    (h : Prefixes.read (fuel + 1) p bs 0 = .ok (r, pos')) : 0 < pos' := by
  rw [Prefixes.read, bind_apply] at h
  split at h
  · rename_i b pos hb
    obtain rfl := byte_reached hb
    have hlen := ((Local.byte 0).ok bs b 1 (Nat.zero_le _) (Nat.zero_le _) hb).2.1
    cases hadd : p.add? b with
    | none =>
        rw [hadd] at h
        cases h
        exact Nat.one_pos
    | some p' =>
        rw [hadd] at h
        exact ((Prefixes.local_read p' (by omega)).ok bs r pos' hlen (by decide) h).1
  · cases h

/-- An instruction that was read has prefixes, and its opcode and operands follow. -/
theorem readInstruction_ok {ip : UInt32} {code32 : Bool} {p : Prefixes} {d : Decoded} {len : Nat}
    (h : readInstruction ip code32 bs 0 = .ok ((p, d), len)) :
    ∃ op pos, Prefixes.read maxLength {} bs 0 = .ok ((p, op), pos) ∧ 0 < pos ∧ pos ≤ bs.length ∧ pos ≤ maxLength ∧
      readOpcode (.of ip code32 p) op bs pos = .ok (d, len) := by
  rw [readInstruction, bind_apply] at h
  split at h
  · rename_i a pos hp
    obtain ⟨p', op⟩ := a
    dsimp only at h
    rw [bind_apply] at h
    split at h
    · rename_i d' len' hd
      cases h
      obtain ⟨-, hlen, hmax, -⟩ := (Prefixes.local_read {} (by decide)).ok bs _ pos (Nat.zero_le _) (Nat.zero_le _) hp
      exact ⟨op, pos, hp, Prefixes.pos_of_read (by decide) hp, hlen, hmax, hd⟩
    · cases h
  · cases h

/-- The opcode that callback traps share takes an operand byte. -/
theorem one_lt_of_readInstruction {ip : UInt32} {code32 : Bool} {p : Prefixes} {d : Decoded} {len : Nat}
    (h : readInstruction ip code32 (0xFE :: bs) 0 = .ok ((p, d), len)) : 1 < len := by
  obtain ⟨op, pos, hp, -, hlen, hmax, hread⟩ := readInstruction_ok h
  have hread : Prefixes.read maxLength {} (0xFE :: bs) 0 = .ok (({}, 0xFE), 1) := rfl
  rw [hread] at hp
  cases hp
  have hform : readOpcode (.of ip code32 {}) 0xFE = ModRM.read >>= fun m =>
      (if m.reg.val = 0 then Entry.unary .inc .w8 else if m.reg.val = 1 then .unary .dec .w8 else .undefined).read
        (.of ip code32 {}) m := rfl
  rw [hform, bind_apply] at hread
  split at hread
  · rename_i m pos' hm
    obtain ⟨hle, hlen', hmax', -⟩ := (ModRM.local_read 1).ok _ _ _ hlen hmax hm
    have hnext : pos' = 2 := by
      rw [ModRM.read, bind_apply] at hm
      split at hm
      · rename_i b pos'' hb
        cases hm
        exact byte_reached hb
      · cases hm
    subst hnext
    exact ((Entry.local_read _ m _ 2).ok _ _ _ hlen' hmax' hread).1
  · cases hread

end Encoding

open Encoding Reader

variable {bs bs' : List UInt8} {ip : UInt32} {code32 : Bool} {inst : Instruction}

/-- Whether the bytes begin like a callback trap. -/
def Trapping (bs : List UInt8) : Prop :=
  ∃ rest, bs = 0xFE :: 0x38 :: rest

theorem decode_trap (rest : List UInt8) (ip : UInt32) (code32 : Bool) : decode (0xFE :: 0x38 :: rest) ip code32 =
    match rest with
    | lo :: hi :: _ => .ok { ip, len := 4, width := .w16, kind := .callback (joinBytes [lo, hi]).toUInt16 }
    | _ => .error (.truncated ip) := rfl

theorem decode_plain (hne : bs ≠ []) (h : ¬Trapping bs) : decode bs ip code32 =
    match readInstruction ip code32 bs 0 with
    | .ok ((p, decoded), len) =>
      .ok { ip, len, width := (classify code32 p decoded).2, kind := (classify code32 p decoded).1 }
    | .error .endOfBytes => .error (.truncated ip)
    | .error .tooLong => .ok { ip, len := maxLength, width := .w8, kind := .invalid } := by
  unfold decode
  split
  · exact absurd rfl hne
  · exact absurd ⟨_, rfl⟩ h
  · rfl

theorem ne_nil_of_take {n : Nat} (hn : 0 < n) (h : bs'.take n = bs.take n) (hne : bs ≠ []) : bs' ≠ [] := by
  rintro rfl
  obtain ⟨b, bs, rfl⟩ := List.exists_cons_of_ne_nil hne
  obtain ⟨n, rfl⟩ := Nat.exists_eq_succ_of_ne_zero hn.ne'
  simp at h

/-- Two bytes tell whether something is a trap. -/
theorem Trapping.of_take {n : Nat} (hn : 1 < n) (h : bs'.take n = bs.take n) (htrap : Trapping bs) : Trapping bs' := by
  obtain ⟨rest, rfl⟩ := htrap
  obtain ⟨n, rfl⟩ := Nat.exists_eq_add_of_lt hn
  match bs', h with
  | [], h => simp [Nat.add_comm 1, Nat.add_assoc] at h
  | [_], h => simp [Nat.add_comm 1, Nat.add_assoc] at h
  | a :: b :: rest', h =>
      simp only [Nat.add_comm 1, Nat.add_assoc, List.take_succ_cons, List.cons.injEq] at h
      obtain ⟨rfl, rfl, -⟩ := h
      exact ⟨rest', rfl⟩

/-- A decoded instruction has a place and at least one byte, all there, and is found wherever its bytes stand. -/
theorem decode_ok (h : decode bs ip code32 = .ok inst) :
    inst.ip = ip ∧ 0 < inst.len ∧ inst.len ≤ bs.length ∧ inst.len ≤ maxLength ∧
      ∀ bs', bs'.take inst.len = bs.take inst.len → decode bs' ip code32 = .ok inst := by
  by_cases hne : bs = []
  · rw [hne] at h
    cases h
  by_cases htrap : Trapping bs
  · obtain ⟨rest, rfl⟩ := htrap
    rw [decode_trap] at h
    split at h
    · rename_i lo hi tail
      cases h
      refine ⟨rfl, Nat.succ_pos 3, by simp, show 4 ≤ maxLength by decide, fun bs' htake => ?_⟩
      obtain ⟨rest', rfl⟩ := Trapping.of_take (show 1 < 4 by decide) htake ⟨_, rfl⟩
      rw [decode_trap]
      match rest', htake with
      | lo' :: hi' :: tail', htake =>
          simp only [List.take_succ_cons, List.cons.injEq, true_and, List.take_zero, and_true] at htake
          rw [htake.1, htake.2]
      | [], htake => simp at htake
      | [_], htake => simp at htake
    · cases h
  · have hlocal := local_readInstruction ip code32
    rw [decode_plain hne htrap] at h
    split at h
    · rename_i p d len hread
      cases h
      obtain ⟨-, hlen, hmax, hstable⟩ := hlocal.ok bs _ len (Nat.zero_le _) (Nat.zero_le _) hread
      have hpos : 0 < len := by
        obtain ⟨op, pos, -, hpos, hposlen, hposmax, hop⟩ := readInstruction_ok hread
        exact Nat.lt_of_lt_of_le hpos ((local_readOpcode _ op pos).ok bs d len hposlen hposmax hop).1
      refine ⟨rfl, hpos, hlen, hmax, fun bs' htake => ?_⟩
      have htrap' : ¬Trapping bs' := by
        intro hbs'
        obtain ⟨b, tail, rfl⟩ := List.exists_cons_of_ne_nil hne
        have hfirst : b = 0xFE := by
          obtain ⟨rest, rfl⟩ := hbs'
          have := getElem?_of_take htake hpos
          simpa using this.symm
        subst hfirst
        exact htrap (hbs'.of_take (one_lt_of_readInstruction hread) htake.symm)
      rw [decode_plain (ne_nil_of_take hpos htake hne) htrap', hstable bs' htake]
    · cases h
    · rename_i hread
      cases h
      obtain ⟨hlong, hstable⟩ := hlocal.long bs (Nat.zero_le _) (Nat.zero_le _) hread
      refine ⟨rfl, show 0 < maxLength by decide, hlong, le_rfl, fun bs' htake => ?_⟩
      have htrap' : ¬Trapping bs' := fun hbs' => htrap (hbs'.of_take (show 1 < maxLength by decide) htake.symm)
      rw [decode_plain (ne_nil_of_take (show 0 < maxLength by decide) htake hne) htrap', hstable bs' htake]

/-- Fifteen bytes always have an instruction. -/
theorem decode_of_length (h : maxLength ≤ bs.length) (ip : UInt32) (code32 : Bool) : ∃ inst, decode bs ip code32 = .ok inst := by
  have hne : bs ≠ [] := by
    rintro rfl
    exact absurd h (by decide)
  by_cases htrap : Trapping bs
  · obtain ⟨rest, rfl⟩ := htrap
    rw [decode_trap]
    match rest, h with
    | lo :: hi :: tail, _ => exact ⟨_, rfl⟩
    | [], h => exact absurd h (by decide)
    | [_], h => exact absurd h (by simp [maxLength])
  · rw [decode_plain hne htrap]
    split
    · exact ⟨_, rfl⟩
    · rename_i hread
      have := (local_readInstruction ip code32).short bs (Nat.zero_le _) (Nat.zero_le _) hread
      omega
    · exact ⟨_, rfl⟩

/-- Bytes without an instruction are cut short, if there are any at all. -/
theorem decode_error {e : DecodeError} (hne : bs ≠ []) (h : decode bs ip code32 = .error e) : e = .truncated ip := by
  by_cases htrap : Trapping bs
  · obtain ⟨rest, rfl⟩ := htrap
    rw [decode_trap] at h
    split at h <;> cases h
    rfl
  · rw [decode_plain hne htrap] at h
    split at h <;> cases h
    rfl

/-- An instruction found in some bytes is found, unchanged, in every continuation of them, and conversely in every
beginning that has all its bytes; a shorter beginning is truncated. -/
theorem decode_append_cases (b s : List UInt8) (ip : UInt32) (code32 : Bool) :
    (∀ i, decode b ip code32 = .ok i → 1 ≤ i.len ∧ i.len ≤ min 15 b.length ∧ decode (b ++ s) ip code32 = .ok i) ∧
    (∀ i, decode (b ++ s) ip code32 = .ok i →
      (i.len ≤ b.length → decode b ip code32 = .ok i) ∧
      (b ≠ [] → b.length < i.len → decode b ip code32 = .error (.truncated ip))) ∧
    (15 ≤ b.length → ∀ ip', decode b ip code32 ≠ .error (.truncated ip')) := by
  have hextends : ∀ i, decode b ip code32 = .ok i → decode (b ++ s) ip code32 = .ok i := by
    intro i hi
    obtain ⟨-, -, hlen, -, hstable⟩ := decode_ok hi
    exact hstable (b ++ s) (List.take_append_of_le_length hlen)
  refine ⟨fun i hi => ?_, fun i hi => ⟨fun hlen => ?_, fun hne hshort => ?_⟩, fun hlong ip' herr => ?_⟩
  · obtain ⟨-, hpos, hlen, hmax, -⟩ := decode_ok hi
    exact ⟨hpos, Nat.le_min.mpr ⟨hmax, hlen⟩, hextends i hi⟩
  · obtain ⟨-, -, -, -, hstable⟩ := decode_ok hi
    exact hstable b (List.take_append_of_le_length hlen).symm
  · cases hb : decode b ip code32 with
    | error e => rw [decode_error hne hb]
    | ok i' =>
        -- Found in the beginning, it would be the same instruction, and too long for it.
        have hsame : i = i' := Except.ok.inj (hi.symm.trans (hextends i' hb))
        obtain ⟨-, -, hlen, -, -⟩ := decode_ok hb
        exact absurd (hsame ▸ hlen) (Nat.not_le.mpr hshort)
  · obtain ⟨i, hi⟩ := decode_of_length hlong ip code32
    rw [hi] at herr
    cases herr

/-- `add dword [esp], 0x12345678`, cut before its immediate and with another byte behind it. -/
theorem decode_append_cases_add :
    ∃ i, i.len = 7 ∧ decode [0x81, 0x04, 0x24, 0x78, 0x56, 0x34, 0x12] 0 true = .ok i ∧
      decode [0x81, 0x04, 0x24, 0x78, 0x56, 0x34, 0x12, 0x90] 0 true = .ok i ∧
      decode [0x81, 0x04, 0x24] 0 true = .error (.truncated 0) := by
  have hfound : ∃ i, i.len = 7 ∧ decode [0x81, 0x04, 0x24, 0x78, 0x56, 0x34, 0x12] 0 true = .ok i := by
    exact ⟨_, rfl, rfl⟩
  obtain ⟨i, hlen, hi⟩ := hfound
  refine ⟨i, hlen, hi, ((decode_append_cases [0x81, 0x04, 0x24, 0x78, 0x56, 0x34, 0x12] [0x90] 0 true).1 i hi).2.2, ?_⟩
  exact ((decode_append_cases [0x81, 0x04, 0x24] [0x78, 0x56, 0x34, 0x12] 0 true).2.1 i hi).2 (by decide) (by rw [hlen]; decide)

end Recompiler
