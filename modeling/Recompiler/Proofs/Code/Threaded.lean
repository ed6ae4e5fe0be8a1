import Recompiler.Code.Threaded.Run
import Recompiler.Proofs.Code.Assembled

/-! Threaded code reads back as what was written: every operand, every action, every jump, exit and link. -/

namespace Recompiler

theorem getElem?_slice (store : ByteArray) (first last i : Nat) :
    (slice store first last)[i]? = if first + i < last then store.data[first + i]? else none := by
  rw [slice, ByteArray.data_extract, Array.getElem?_toList, Array.getElem?_extract]
  by_cases hi : first + i < last
  · rw [if_pos hi]
    by_cases hsize : first + i < store.data.size
    · rw [if_pos (by omega)]
    · rw [if_neg (by omega), Array.getElem?_eq_none (by omega)]
  · rw [if_neg hi, if_neg (by omega)]

namespace Threaded

open HostEncoding

theorem sized_encoding : encoding.Sized :=
  fun _ _ _ => length_littleEndian 8 _

/-! ### Operands -/

namespace Operands

theorem number_littleEndian (n value : Nat) (rest : List UInt8) :
    number n (littleEndian n value ++ rest) = some (value % 256 ^ n, rest) := by
  induction n generalizing value with
  | zero =>
      rw [Nat.pow_zero, Nat.mod_one]
      rfl
  | succ n ih =>
      have hlow : value.toUInt8.toNat = value % 256 := UInt8.toNat_ofNat'
      have hsplit : value % 256 ^ (n + 1) = value % 256 + 256 * (value / 256 % 256 ^ n) := by
        rw [Nat.pow_succ', Nat.mod_mul]
      rw [littleEndian, List.cons_append, hsplit, ← hlow]
      simp only [number, byte, bind, StateT.bind, Option.bind, ih, pure, StateT.pure]

theorem number_eight {value : Nat} (hvalue : value < 2 ^ 64) (rest : List UInt8) :
    number 8 (littleEndian 8 value ++ rest) = some (value, rest) := by
  have hmod : value % 256 ^ 8 = value := Nat.mod_eq_of_lt hvalue
  rw [number_littleEndian, hmod]

theorem u32_littleEndian (value : UInt32) (rest : List UInt8) :
    u32 (littleEndian 4 value.toNat ++ rest) = some (value, rest) := by
  have hmod : value.toNat % 256 ^ 4 = value.toNat := Nat.mod_eq_of_lt value.toNat_lt
  simp only [u32, bind, StateT.bind, number_littleEndian, hmod, Option.bind, pure, StateT.pure]
  rw [Nat.toUInt32, UInt32.ofNat_toNat]

theorem tmp_cons (t : Tmp) (rest : List UInt8) : tmp (Threaded.tmp t :: rest) = some (t, rest) := by
  cases t <;> rfl

theorem width_cons (w : Width) (rest : List UInt8) : width (Threaded.width w :: rest) = some (w, rest) := by
  cases w <;> rfl

theorem looseWidth_width (w : Width) : looseWidth (Threaded.width w).toNat = w := by
  cases w <;> rfl

theorem gpr_cons (g : Gpr) (rest : List UInt8) : gpr (Threaded.gpr g :: rest) = some (g, rest) := by
  cases g <;> rfl

theorem optGpr_cons (g : Option Gpr) (rest : List UInt8) : optGpr (Threaded.optGpr g :: rest) = some (g, rest) := by
  rcases g with _ | g
  · rfl
  · cases g <;> rfl

theorem bool_cons (b : Bool) (rest : List UInt8) : bool (Threaded.bool b :: rest) = some (b, rest) := by
  cases b <;> rfl

theorem reg_cons (r : Reg) (rest : List UInt8) :
    reg (Threaded.gpr r.gpr :: Threaded.width r.width :: Threaded.bool r.high8 :: rest) = some (r, rest) := by
  simp only [reg, bind, StateT.bind, gpr_cons, width_cons, bool_cons, Option.bind, pure, StateT.pure]

theorem widthFlag_littleEndian (w : Width) (flag : Bool) (rest : List UInt8) :
    widthFlag (littleEndian 2 (Threaded.widthFlag w flag) ++ rest) = some ((w, flag), rest) := by
  simp only [widthFlag, bind, StateT.bind, number_littleEndian, Option.bind, pure, StateT.pure]
  cases w <;> cases flag <;> rfl

theorem lift_seg (seg : Seg) (rest : List UInt8) :
    StateT.lift (Seg.ofNat? seg.index.val.toUInt8.toNat) rest = some (seg, rest) := by
  cases seg <;> rfl

theorem lift_aluOp (op : AluOp) (rest : List UInt8) :
    StateT.lift (AluOp.ofNat? op.index.toUInt8.toNat) rest = some (op, rest) := by
  cases op <;> rfl

theorem lift_unaryOp (op : UnaryOp) (rest : List UInt8) :
    StateT.lift (UnaryOp.ofNat? op.index.toUInt8.toNat) rest = some (op, rest) := by
  cases op <;> rfl

theorem lift_cond (cond : Cond) (rest : List UInt8) :
    StateT.lift (Cond.ofCode? cond.code.toUInt8.toNat) rest = some (cond, rest) := by
  cases cond <;> rfl

end Operands

/-! ### Operations -/

open Operands

/-- What an action is read back as: the segment of an offset is not written. -/
def readBack : Action → Action
  | .lea dst addr => .lea dst { addr with seg := .ds }
  | a => a

/-- An offset does not depend on its segment. -/
theorem perform_readBack {ε : Type} (h : Helpers ε) (a : Action) (s : Activation ε) :
    (readBack a).perform h s = a.perform h s := by
  cases a <;> rfl

theorem decode_action (a : Action) (base : Nat) (content : Nat → Label → List UInt8) (pos : Nat) (rest : List UInt8) :
    decode (encoding.render base content pos (action a) ++ rest) = some (.act (readBack a), rest) := by
  cases a <;>
    simp only [action, render, pieceBytes, Threaded.u32, Threaded.u16, Threaded.reg, List.append_nil, List.cons_append,
      List.nil_append, List.append_assoc, decode, byte, bind, Option.bind, step, StateT.bind, pure, StateT.pure,
      u32_littleEndian, tmp_cons, width_cons, looseWidth_width, reg_cons, optGpr_cons, bool_cons, widthFlag_littleEndian,
      lift_seg, lift_aluOp, lift_unaryOp, readBack, UInt8.toNat_ofNat, Nat.reducePow, Nat.reduceMod]

theorem decode_jumpIf (cond : Cond) (l : Label) {base pos target : Nat} {content : Nat → Label → List UInt8}
    (hcontent : content (pos + 2) l = littleEndian 8 target) (htarget : target < 2 ^ 64) (rest : List UInt8) :
    decode (encoding.render base content pos (pieces (.jumpIf cond l)) ++ rest) = some (.jumpIf cond target, rest) := by
  have hbytes : encoding.render base content pos (pieces (.jumpIf cond l)) =
      22 :: cond.code.toUInt8 :: littleEndian 8 target := by
    change 22 :: cond.code.toUInt8 :: (content (pos + 2) l ++ []) = _
    rw [hcontent, List.append_nil]
  rw [hbytes]
  simp only [List.cons_append, decode, byte, bind, Option.bind, step, StateT.bind, pure, StateT.pure, lift_cond,
    number_eight htarget, UInt8.toNat_ofNat, Nat.reducePow, Nat.reduceMod]

theorem decode_exit (code : ExitCode) (base : Nat) (content : Nat → Label → List UInt8) (pos : Nat) (rest : List UInt8) :
    decode (encoding.render base content pos (pieces (.exit code)) ++ rest) = some (.exit code.raw, rest) := by
  simp only [pieces, render, pieceBytes, Threaded.u32, List.append_nil, List.cons_append, List.nil_append, decode, byte, bind,
    Option.bind, step, StateT.bind, pure, StateT.pure, u32_littleEndian, UInt8.toNat_ofNat, Nat.reducePow, Nat.reduceMod]

theorem decode_link (slot : Nat) (entry : UInt64) (base : Nat) (content : Nat → Label → List UInt8) (pos : Nat)
    (rest : List UInt8) :
    decode (encoding.render base content pos (pieces (.link slot entry)) ++ rest) =
      some (.link slot.toUInt8 entry.toNat, rest) := by
  simp only [pieces, render, pieceBytes, Threaded.u64, List.append_nil, List.cons_append, List.nil_append, decode, byte, bind,
    Option.bind, step, StateT.bind, pure, StateT.pure, number_eight entry.toNat_lt, UInt8.toNat_ofNat, Nat.reducePow,
    Nat.reduceMod]

/-- No operation is longer than what is fetched at once. -/
theorem size_written_le (op : MicroOp) : encoding.size (encoding.written op) ≤ maxLength := by
  cases op with
  | act a =>
      cases a <;>
        simp [encoding, written, pieces, action, size, pieceSize, Threaded.u32, Threaded.u16, Threaded.reg, maxLength]
  | _ => simp [encoding, written, pieces, size, pieceSize, Threaded.u32, Threaded.u64, maxLength]

/-- An operation is fetched from where its bytes stand. -/
theorem fetch_eq {code : ByteArray} {pc : Nat} {bytes : List UInt8} {step : Step}
    (hcode : ∀ i, i < bytes.length → code.data[pc + i]? = bytes[i]?) (hlength : bytes.length ≤ maxLength)
    (hdecode : ∀ rest, decode (bytes ++ rest) = some (step, rest)) : fetch code pc = some (step, pc + bytes.length) := by
  have hwindow : slice code pc (pc + maxLength) = bytes ++ slice code (pc + bytes.length) (pc + maxLength) := by
    apply List.ext_getElem?
    intro i
    rw [getElem?_slice]
    by_cases hi : i < bytes.length
    · rw [if_pos (by omega), List.getElem?_append_left hi]
      exact hcode i hi
    · have hpc : pc + bytes.length + (i - bytes.length) = pc + i := by omega
      rw [List.getElem?_append_right (by omega), getElem?_slice, hpc]
  unfold fetch
  dsimp only
  rw [hwindow, hdecode]
  simp

end Threaded

end Recompiler
