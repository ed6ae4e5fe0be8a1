import Mathlib
import Recompiler.Guest.Arithmetic
import Recompiler.Proofs.Guest.Bytes

/-! Arithmetic means what it does to integers. A sum or difference is that of the operands, cut to the width, and the flags
tell where the integer lies outside a range: the carry, of the numbers without a sign; the overflow, of the numbers in two's
complement; the auxiliary carry, of the low four bits. So after a comparison the branch conditions order the operands. -/

namespace Recompiler

/-! ### Tests of flags -/

namespace Flag

theorem test_eq_testBit {mask : UInt32} {i : Nat} (hmask : mask.toNat = 2 ^ i) (x : UInt32) :
    test x mask = x.toNat.testBit i := by
  have hzero : x &&& mask = 0 ↔ x.toNat.testBit i = false := by
    rw [← UInt32.toNat_inj, UInt32.toNat_and, hmask, Nat.and_two_pow]
    cases x.toNat.testBit i <;> simp
  rw [test, Bool.eq_iff_iff, decide_eq_true_iff, ne_eq, hzero, Bool.not_eq_false]

theorem test_or (x y mask : UInt32) : test (x ||| y) mask = (test x mask || test y mask) := by
  have hzero : (x ||| y) &&& mask = 0 ↔ x &&& mask = 0 ∧ y &&& mask = 0 := by
    simp only [← UInt32.toNat_inj, UInt32.toNat_and, UInt32.toNat_or, Nat.and_or_distrib_right, UInt32.toNat_zero,
      Nat.or_eq_zero_iff]
  simp only [test, ne_eq, hzero, not_and_or, Bool.decide_or]

theorem test_and (x y mask : UInt32) : test (x &&& y) mask = test x (y &&& mask) := by
  rw [test, test, UInt32.and_assoc]

@[simp] theorem test_zero (x : UInt32) : test x 0 = false := by
  simp [test]

/-- A flag of a mask is that of the word put in its place. -/
theorem test_replace {mask f : UInt32} (hf : ~~~mask &&& f = 0) (e status : UInt32) :
    test ((e &&& ~~~mask) ||| status) f = test status f := by
  rw [test_or, test_and, hf, test_zero, Bool.false_or]

theorem toNat_and_cf (e : UInt32) : (e &&& cf).toNat = (test e cf).toNat := by
  rw [test_eq_testBit (i := 0) rfl, UInt32.toNat_and]
  exact (Nat.and_two_pow e.toNat 0).trans (Nat.mul_one _)

end Flag

/-! ### Operands -/

namespace Width

/-- The low bits of a word that an operation of a width works on. -/
def operand (w : Width) (x : UInt32) : BitVec w.bits :=
  x.toBitVec.setWidth w.bits

variable (w : Width) (x : UInt32)

theorem toNat_operand : (w.operand x).toNat = x.toNat % 2 ^ w.bits := by
  rw [operand, BitVec.toNat_setWidth, UInt32.toNat_toBitVec]

theorem toNat_and_mask_eq_operand : (x &&& w.mask).toNat = (w.operand x).toNat := by
  rw [toNat_and_mask, toNat_operand]

theorem operand_and_mask : w.operand (x &&& w.mask) = w.operand x := by
  apply BitVec.eq_of_toNat_eq
  rw [toNat_operand, toNat_operand, toNat_and_mask, Nat.mod_mod]

theorem toNat_signBit : w.signBit.toNat = 2 ^ (w.bits - 1) := by
  cases w <;> rfl

theorem test_signBit : Flag.test x w.signBit = (w.operand x).msb := by
  rw [Flag.test_eq_testBit w.toNat_signBit, BitVec.msb_eq_getLsbD_last, operand, BitVec.getLsbD_setWidth]
  have hlast : w.bits - 1 < w.bits := by cases w <;> decide
  rw [decide_eq_true hlast, Bool.true_and]
  rfl

end Width

namespace Arithmetic

/-! ### Flags that are set, and those that are kept -/

theorem or_and_distrib (x y z : UInt32) : (x ||| y) &&& z = (x &&& z) ||| (y &&& z) :=
  UInt32.toNat_inj.mp (by simp only [UInt32.toNat_and, UInt32.toNat_or, Nat.and_or_distrib_right])

theorem and_when {f mask : UInt32} (h : f &&& mask = 0) (on : Bool) : Flag.when f on &&& mask = 0 := by
  cases on
  · exact UInt32.zero_and
  · exact h

/-- Arithmetic sets status flags only. -/
theorem status_add (w : Width) (a b carry : UInt32) : (add w a b carry).2 &&& ~~~Flag.status = 0 := by
  simp only [add, resultFlags, or_and_distrib]
  repeat rw [and_when (by decide)]
  rfl

theorem status_sub (w : Width) (a b borrow : UInt32) : (sub w a b borrow).2 &&& ~~~Flag.status = 0 := by
  simp only [sub, resultFlags, or_and_distrib]
  repeat rw [and_when (by decide)]
  rfl

theorem status_logic (w : Width) (value : UInt32) : (logic w value).2 &&& ~~~Flag.status = 0 := by
  simp only [logic, resultFlags, or_and_distrib]
  repeat rw [and_when (by decide)]
  rfl

/-- The flags apart from those of a mask are not changed by setting flags of the mask. -/
theorem and_or_cancel {e status mask : UInt32} (h : status &&& ~~~mask = 0) : ((e &&& ~~~mask) ||| status) &&& ~~~mask = e &&& ~~~mask := by
  rw [or_and_distrib, h, UInt32.or_zero, UInt32.and_assoc, UInt32.and_self]

/-- The flags other than the status flags are left alone. -/
theorem alu_flags (op : AluOp) (w : Width) (a b e : UInt32) : (alu op w a b e).2 &&& ~~~Flag.status = e &&& ~~~Flag.status := by
  cases op with
  | add => exact and_or_cancel (status_add w a b 0)
  | adc => exact and_or_cancel (status_add w a b (e &&& Flag.cf))
  | sub | cmp => exact and_or_cancel (status_sub w a b 0)
  | sbb => exact and_or_cancel (status_sub w a b (e &&& Flag.cf))
  | and | test => exact and_or_cancel (status_logic w (a &&& b))
  | or => exact and_or_cancel (status_logic w (a ||| b))
  | xor => exact and_or_cancel (status_logic w (a ^^^ b))

theorem unary_flags (op : UnaryOp) (w : Width) (a e : UInt32) : (unary op w a e).2 &&& ~~~Flag.status = e &&& ~~~Flag.status := by
  have hkeep {status : UInt32} (h : status &&& ~~~Flag.status = 0) :
      ((e &&& ~~~(Flag.status &&& ~~~Flag.cf)) ||| (status &&& ~~~Flag.cf)) &&& ~~~Flag.status = e &&& ~~~Flag.status := by
    have hmask : ~~~(Flag.status &&& ~~~Flag.cf) &&& ~~~Flag.status = ~~~Flag.status := by decide
    rw [or_and_distrib, UInt32.and_assoc, hmask, UInt32.and_assoc, UInt32.and_comm (~~~Flag.cf), ← UInt32.and_assoc, h,
      UInt32.zero_and, UInt32.or_zero]
  cases op with
  | inc => exact hkeep (status_add ..)
  | dec => exact hkeep (status_sub ..)
  | neg => exact and_or_cancel (status_sub ..)
  | not => rfl

/-- An operation gives the same for all flags words that differ in status flags only, and agree on the carry if it is read. -/
theorem alu_congr {op : AluOp} {e e' : UInt32} (hcarry : op.readsCarry = true → e' &&& Flag.cf = e &&& Flag.cf)
    (h : e' &&& ~~~Flag.status = e &&& ~~~Flag.status) (w : Width) (a b : UInt32) : alu op w a b e' = alu op w a b e := by
  cases op <;> unfold alu <;> rw [h]
  · rw [hcarry rfl]
  · rw [hcarry rfl]

/-- Increments and decrements keep the carry, and the other operations do not read the flags. -/
theorem unary_unary (op : UnaryOp) (w w' : Width) (a a' e : UInt32) : unary op w a (unary op w' a' e).2 = unary op w a e := by
  have hkeep {status : UInt32} (h : status &&& ~~~Flag.status = 0) :
      ((e &&& ~~~(Flag.status &&& ~~~Flag.cf)) ||| (status &&& ~~~Flag.cf)) &&& ~~~(Flag.status &&& ~~~Flag.cf) =
        e &&& ~~~(Flag.status &&& ~~~Flag.cf) := by
    refine and_or_cancel ?_
    have hmask : ~~~Flag.cf &&& ~~~(Flag.status &&& ~~~Flag.cf) = ~~~Flag.status &&& ~~~Flag.cf := by decide
    rw [UInt32.and_assoc, hmask, ← UInt32.and_assoc, h, UInt32.zero_and]
  cases op with
  | inc =>
      unfold unary
      dsimp only
      rw [hkeep (status_add ..)]
  | dec =>
      unfold unary
      dsimp only
      rw [hkeep (status_sub ..)]
  | neg =>
      unfold unary
      dsimp only
      rw [and_or_cancel (status_sub ..)]
  | not => rfl

/-! ### Ways to read operands, and what operations make of them -/

section Reading

variable {n : Nat} (x : BitVec n)

/-- The operand as a number without a sign. -/
def unsigned : Int := x.toNat

/-- The operand in two's complement. -/
def signed : Int := x.toInt

/-- The low four bits of the operand. -/
def nibble : Int := x.toNat % 16

end Reading

/-- An operation gives the low bits of an integer, and its flags tell whether that integer leaves the range of its operands.
`value` is the integer for each way to read them. -/
structure Evaluates (w : Width) (value : (BitVec w.bits → Int) → Int) (out : UInt32 × UInt32) : Prop where
  result : (out.1.toNat : Int) = value unsigned % 2 ^ w.bits
  overflow : Flag.test out.2 Flag.of = true ↔ value signed ∉ Set.Ico (-2 ^ (w.bits - 1)) (2 ^ (w.bits - 1))
  adjust : Flag.test out.2 Flag.af = true ↔ value nibble ∉ Set.Ico 0 16

/-- The carry tells whether the integer is no number of the width. -/
def Carries (w : Width) (value : (BitVec w.bits → Int) → Int) (out : UInt32 × UInt32) : Prop :=
  Flag.test out.2 Flag.cf = true ↔ value unsigned ∉ Set.Ico 0 (2 ^ w.bits)

/-- An operation gives these bits and clears the flags of sums. -/
structure Combines {w : Width} (bits : BitVec w.bits) (out : UInt32 × UInt32) : Prop where
  result : out.1.toNat = bits.toNat
  carry : Flag.test out.2 Flag.cf = false
  overflow : Flag.test out.2 Flag.of = false
  adjust : Flag.test out.2 Flag.af = false

/-- The other status flags describe the result, and the flags that are no status flags are those from before. -/
structure Describes (w : Width) (eflags : UInt32) (out : UInt32 × UInt32) : Prop where
  zero : Flag.test out.2 Flag.zf = true ↔ out.1 = 0
  sign : Flag.test out.2 Flag.sf = true ↔ signed (w.operand out.1) < 0
  parity : Flag.test out.2 Flag.pf = true ↔ Even ((List.range 8).countP out.1.toNat.testBit)
  rest : out.2 &&& ~~~Flag.status = eflags &&& ~~~Flag.status

/-- What a two-operand operation is to make of its operands and the flags. -/
def AluMeaning (w : Width) (a b eflags : UInt32) (out : UInt32 × UInt32) : AluOp → Prop
  | .add => Sums fun read => read (w.operand a) + read (w.operand b)
  | .adc => Sums fun read => read (w.operand a) + read (w.operand b) + carry
  | .sub | .cmp => Sums fun read => read (w.operand a) - read (w.operand b)
  | .sbb => Sums fun read => read (w.operand a) - read (w.operand b) - carry
  | .and | .test => Combines (w.operand a &&& w.operand b) out
  | .or => Combines (w.operand a ||| w.operand b) out
  | .xor => Combines (w.operand a ^^^ w.operand b) out
where
  carry : Int := (Flag.test eflags Flag.cf).toNat
  Sums (value : (BitVec w.bits → Int) → Int) : Prop := Evaluates w value out ∧ Carries w value out

/-- What a one-operand operation is to make of its operand and the flags. -/
def UnaryMeaning (w : Width) (a eflags : UInt32) (out : UInt32 × UInt32) : UnaryOp → Prop
  | .inc => Steps fun read => read (w.operand a) + 1
  | .dec => Steps fun read => read (w.operand a) - 1
  | .neg => Evaluates w (fun read => -read (w.operand a)) out ∧ Carries w (fun read => -read (w.operand a)) out ∧
      Describes w eflags out
  | .not => out.1.toNat = (~~~w.operand a).toNat ∧ out.2 = eflags
where
  Steps (value : (BitVec w.bits → Int) → Int) : Prop :=
    Evaluates w value out ∧ Flag.test out.2 Flag.cf = Flag.test eflags Flag.cf ∧ Describes w eflags out

/-! ### Flags of a result -/

theorem evenParity_iff (value : UInt32) : evenParity value = true ↔ Even ((List.range 8).countP value.toNat.testBit) := by
  have hbit : ∀ i < 8, (value >>> i.toUInt32) &&& 1 = 1 ↔ value.toNat.testBit i = true := by
    intro i hi
    have hshift : i.toUInt32.toNat % 32 = i := by
      rw [Nat.toUInt32, UInt32.toNat_ofNat']
      omega
    have hone : (1 : UInt32).toNat = 2 ^ 1 - 1 := rfl
    rw [← UInt32.toNat_inj, UInt32.toNat_and, UInt32.toNat_shiftRight, hshift, hone, Nat.and_two_pow_sub_one_eq_mod,
      Nat.shiftRight_eq_div_pow, Nat.testBit_eq_decide_div_mod_eq, decide_eq_true_iff]
    rfl
  have hcount : (List.range 8).countP (fun i => (value >>> i.toUInt32) &&& 1 = 1) = (List.range 8).countP value.toNat.testBit := by
    apply List.countP_congr
    intro i hi
    rw [decide_eq_true_iff]
    exact hbit i (List.mem_range.mp hi)
  rw [evenParity, hcount, decide_eq_true_iff, Nat.even_iff]

/-- A word of status flags has each of them as it was set. -/
theorem test_status (z s p c a o : Bool) {flags : UInt32}
    (h : flags = Flag.when Flag.zf z ||| Flag.when Flag.sf s ||| Flag.when Flag.pf p ||| Flag.when Flag.cf c |||
      Flag.when Flag.af a ||| Flag.when Flag.of o) :
    (Flag.test flags Flag.zf = z ∧ Flag.test flags Flag.sf = s ∧ Flag.test flags Flag.pf = p) ∧
      Flag.test flags Flag.cf = c ∧ Flag.test flags Flag.af = a ∧ Flag.test flags Flag.of = o := by
  subst h
  revert z s p c a o
  decide

theorem Describes.of_tests {w : Width} {out : UInt32 × UInt32} (hcut : out.1 &&& w.mask = out.1)
    (htests : Flag.test out.2 Flag.zf = decide (out.1 &&& w.mask = 0) ∧
      Flag.test out.2 Flag.sf = decide (out.1 &&& w.signBit ≠ 0) ∧ Flag.test out.2 Flag.pf = evenParity out.1)
    (hstatus : out.2 &&& ~~~Flag.status = 0) : Describes w 0 out := by
  obtain ⟨hzf, hsf, hpf⟩ := htests
  refine ⟨?_, ?_, ?_, hstatus⟩
  · rw [hzf, hcut, decide_eq_true_iff]
  · rw [hsf]
    change Flag.test out.1 w.signBit = true ↔ _
    rw [w.test_signBit, signed, BitVec.msb_eq_toInt, decide_eq_true_iff]
  · rw [hpf]
    exact evenParity_iff out.1

/-! ### Sums and differences -/

section Sums

variable (w : Width) (a b carry : UInt32)

theorem toNat_add : (add w a b carry).1.toNat = ((w.operand a).toNat + (w.operand b).toNat + carry.toNat) % 2 ^ w.bits := by
  have hbits : 2 ^ w.bits ∣ 2 ^ 32 := Nat.pow_dvd_pow 2 (by cases w <;> decide)
  simp only [add, w.toNat_and_mask, UInt64.toNat_toUInt32, UInt64.toNat_add, UInt32.toNat_toUInt64, w.toNat_operand]
  rw [Nat.mod_mod_of_dvd _ hbits, Nat.mod_add_mod, Nat.mod_mod_of_dvd _ (hbits.trans (by decide))]

/-- The difference and the subtrahend add up to the minuend. -/
theorem toNat_sub (hcarry : carry.toNat ≤ 1) :
    (w.operand a).toNat = ((w.operand b).toNat + (sub w a b carry).1.toNat + carry.toNat) % 2 ^ w.bits := by
  have ha := a.toNat_lt
  have hb := b.toNat_lt
  simp only [sub, w.toNat_and_mask, UInt32.toNat_sub, w.toNat_operand]
  cases w <;> simp only [Width.bits, Width.bytes] <;> omega

theorem and_mask_add : (add w a b carry).1 &&& w.mask = (add w a b carry).1 := by
  simp only [add, UInt32.and_assoc, UInt32.and_self]

theorem and_mask_sub : (sub w a b carry).1 &&& w.mask = (sub w a b carry).1 := by
  simp only [sub, UInt32.and_assoc, UInt32.and_self]

variable {w}

/-- Two numbers and their sum differ in a bit if there is a carry into it. -/
theorem test_xor_iff_of_sum {x y z : UInt32} {c : Nat} (hc : c ≤ 1) (hz : z.toNat = (x.toNat + y.toNat + c) % 2 ^ w.bits) :
    Flag.test (x ^^^ y ^^^ z) 0x10 = true ↔ 16 ≤ x.toNat % 16 + y.toNat % 16 + c := by
  have hparity : (x ^^^ y ^^^ z).toNat.testBit 4 = decide ((x.toNat / 16 + y.toNat / 16 + z.toNat / 16) % 2 = 1) := by
    rw [UInt32.toNat_xor, UInt32.toNat_xor, Nat.testBit_xor, Nat.testBit_xor]
    simp only [Nat.testBit_eq_decide_div_mod_eq]
    grind
  rw [Flag.test_eq_testBit (i := 4) rfl, hparity, decide_eq_true_iff]
  cases w <;> simp only [Width.bits, Width.bytes] at hz <;> omega

/-- A sum has another sign than both its parts if it is out of range. -/
theorem test_sign_iff_of_sum {x y z : UInt32} {c : Nat} (hc : c ≤ 1)
    (hz : (w.operand z).toNat = ((w.operand x).toNat + (w.operand y).toNat + c) % 2 ^ w.bits) :
    Flag.test ((x ^^^ z) &&& (y ^^^ z)) w.signBit = true ↔ signed (w.operand z) ≠ signed (w.operand x) + signed (w.operand y) + c := by
  have hbit (v : UInt32) : v.toNat.testBit (w.bits - 1) = (w.operand v).msb := by
    rw [← Flag.test_eq_testBit w.toNat_signBit, w.test_signBit]
  rw [Flag.test_eq_testBit w.toNat_signBit, UInt32.toNat_and, UInt32.toNat_xor, UInt32.toNat_xor, Nat.testBit_and, Nat.testBit_xor,
    Nat.testBit_xor, hbit, hbit, hbit]
  generalize w.operand x = x, w.operand y = y, w.operand z = z at hz
  have hx := x.isLt
  have hy := y.isLt
  simp only [Bool.and_eq_true, bne_iff_ne, BitVec.msb_eq_decide, signed, BitVec.toInt_eq_toNat_cond, ne_eq, decide_eq_decide]
  cases w <;> simp only [Width.bits, Width.bytes] at * <;> omega

/-- An operand in two's complement is the integer that it is made of if that is in range. -/
theorem signed_ne_iff {x : BitVec w.bits} {v : Int} (hx : (x.toNat : Int) = v % 2 ^ w.bits) :
    signed x ≠ v ↔ v ∉ Set.Ico (-2 ^ (w.bits - 1)) (2 ^ (w.bits - 1)) := by
  rw [signed, BitVec.toInt_eq_toNat_cond, Set.mem_Ico]
  cases w <;> simp only [Width.bits, Width.bytes] at * <;> omega

theorem signed_emod (x : BitVec w.bits) : signed x % 2 ^ w.bits = x.toNat := by
  have hx := x.isLt
  rw [signed, BitVec.toInt_eq_toNat_cond]
  cases w <;> simp only [Width.bits, Width.bytes] at * <;> omega

theorem toNat_operand_of_cut {x : UInt32} (hx : x &&& w.mask = x) : (w.operand x).toNat = x.toNat := by
  rw [← w.toNat_and_mask_eq_operand, hx]

/-- A sum, and what its flags tell. -/
theorem add_spec (hcarry : carry.toNat ≤ 1) :
    Evaluates w (fun read => read (w.operand a) + read (w.operand b) + carry.toNat) (add w a b carry) ∧
      Carries w (fun read => read (w.operand a) + read (w.operand b) + carry.toNat) (add w a b carry) ∧
      Describes w 0 (add w a b carry) := by
  have hsum := toNat_add w a b carry
  have hcut := and_mask_add w a b carry
  obtain ⟨hresult, hcf, haf, hof⟩ := test_status _ _ _ _ _ _ (rfl : (add w a b carry).2 = _)
  refine ⟨⟨?_, ?_, ?_⟩, ?_, .of_tests hcut hresult (status_add w a b carry)⟩
  · rw [hsum]
    push_cast
    rfl
  · have hz : (w.operand (add w a b carry).1).toNat =
        ((w.operand (a &&& w.mask)).toNat + (w.operand (b &&& w.mask)).toNat + carry.toNat) % 2 ^ w.bits := by
      rw [toNat_operand_of_cut hcut, hsum, w.operand_and_mask, w.operand_and_mask]
    rw [hof]
    refine (test_sign_iff_of_sum hcarry hz).trans ?_
    rw [w.operand_and_mask, w.operand_and_mask]
    apply signed_ne_iff
    rw [toNat_operand_of_cut hcut, hsum]
    push_cast
    rw [← signed_emod (w.operand a), ← signed_emod (w.operand b)]
    simp [Int.add_emod]
  · have hz : (add w a b carry).1.toNat = ((a &&& w.mask).toNat + (b &&& w.mask).toNat + carry.toNat) % 2 ^ w.bits := by
      rw [w.toNat_and_mask_eq_operand, w.toNat_and_mask_eq_operand, hsum]
    rw [haf]
    refine (test_xor_iff_of_sum hcarry hz).trans ?_
    rw [w.toNat_and_mask_eq_operand, w.toNat_and_mask_eq_operand, Set.mem_Ico, nibble, nibble]
    omega
  · have ha := (w.operand a).isLt
    have hb := (w.operand b).isLt
    rw [Carries, hcf, decide_eq_true_iff, UInt64.lt_iff_toNat_lt, UInt64.toNat_add, UInt64.toNat_add]
    simp only [UInt32.toNat_toUInt64, w.toNat_mask, w.toNat_and_mask_eq_operand, Set.mem_Ico, unsigned]
    cases w <;> simp only [Width.bits, Width.bytes] at * <;> omega

/-- A difference, and what its flags tell. -/
theorem sub_spec (hcarry : carry.toNat ≤ 1) :
    Evaluates w (fun read => read (w.operand a) - read (w.operand b) - carry.toNat) (sub w a b carry) ∧
      Carries w (fun read => read (w.operand a) - read (w.operand b) - carry.toNat) (sub w a b carry) ∧
      Describes w 0 (sub w a b carry) := by
  have hsum := toNat_sub w a b carry hcarry
  have hcut := and_mask_sub w a b carry
  have hlt : (sub w a b carry).1.toNat < 2 ^ w.bits := toNat_operand_of_cut hcut ▸ (w.operand _).isLt
  have hvalue : ((sub w a b carry).1.toNat : Int) = (unsigned (w.operand a) - unsigned (w.operand b) - carry.toNat) % 2 ^ w.bits := by
    rw [unsigned, hsum, unsigned]
    cases w <;> simp only [Width.bits, Width.bytes] at * <;> omega
  obtain ⟨hresult, hcf, haf, hof⟩ := test_status _ _ _ _ _ _ (rfl : (sub w a b carry).2 = _)
  refine ⟨⟨hvalue, ?_, ?_⟩, ?_, .of_tests hcut hresult (status_sub w a b carry)⟩
  · have hz : (w.operand (a &&& w.mask)).toNat =
        ((w.operand (b &&& w.mask)).toNat + (w.operand (sub w a b carry).1).toNat + carry.toNat) % 2 ^ w.bits := by
      rw [toNat_operand_of_cut hcut, w.operand_and_mask, w.operand_and_mask, hsum]
    have hcode : Flag.test (((a &&& w.mask) ^^^ (b &&& w.mask)) &&& ((a &&& w.mask) ^^^ (sub w a b carry).1)) w.signBit = true ↔
        signed (w.operand (sub w a b carry).1) ≠ signed (w.operand a) - signed (w.operand b) - carry.toNat := by
      rw [UInt32.xor_comm (a &&& w.mask), UInt32.xor_comm (a &&& w.mask), test_sign_iff_of_sum hcarry hz, w.operand_and_mask,
        w.operand_and_mask]
      omega
    rw [hof]
    refine hcode.trans (signed_ne_iff ?_)
    rw [toNat_operand_of_cut hcut, hvalue]
    rw [unsigned, unsigned, ← signed_emod (w.operand a), ← signed_emod (w.operand b)]
    simp [Int.sub_emod]
  · have hz : (a &&& w.mask).toNat = ((b &&& w.mask).toNat + (sub w a b carry).1.toNat + carry.toNat) % 2 ^ w.bits := by
      rw [w.toNat_and_mask_eq_operand, w.toNat_and_mask_eq_operand, hsum]
    have hcode : Flag.test ((a &&& w.mask) ^^^ (b &&& w.mask) ^^^ (sub w a b carry).1) 0x10 = true ↔
        16 ≤ (w.operand b).toNat % 16 + (sub w a b carry).1.toNat % 16 + carry.toNat := by
      rw [← w.toNat_and_mask_eq_operand b, ← test_xor_iff_of_sum hcarry hz, UInt32.xor_assoc, UInt32.xor_comm (a &&& w.mask)]
    rw [haf]
    refine hcode.trans ?_
    rw [Set.mem_Ico, nibble, nibble, hsum]
    cases w <;> simp only [Width.bits, Width.bytes] at * <;> omega
  · rw [Carries, hcf, decide_eq_true_iff, UInt64.lt_iff_toNat_lt, UInt64.toNat_add]
    have ha := (w.operand a).isLt
    have hb := (w.operand b).isLt
    simp only [UInt32.toNat_toUInt64, w.toNat_and_mask_eq_operand, Set.mem_Ico, unsigned]
    cases w <;> simp only [Width.bits, Width.bytes] at * <;> omega

end Sums

/-! ### Operations -/

/-- Bits that are cut to a width, with the flags of logic. -/
theorem logic_spec {w : Width} (value : UInt32) {bits : BitVec w.bits} (hbits : w.operand value = bits) :
    Combines bits (logic w value) ∧ Describes w 0 (logic w value) := by
  have hword : (logic w value).2 = resultFlags w (logic w value).1 ||| Flag.when Flag.cf false ||| Flag.when Flag.af false |||
      Flag.when Flag.of false := by
    simp only [Flag.when, Bool.false_eq_true, if_false, UInt32.or_zero]
    rfl
  have hcut : (logic w value).1 &&& w.mask = (logic w value).1 := by
    rw [logic, UInt32.and_assoc, UInt32.and_self]
  obtain ⟨hresult, hcf, haf, hof⟩ := test_status _ _ _ _ _ _ hword
  refine ⟨⟨?_, hcf, hof, haf⟩, .of_tests hcut hresult (status_logic w value)⟩
  rw [← hbits]
  exact w.toNat_and_mask_eq_operand value

section Merge

variable {w : Width} {value : (BitVec w.bits → Int) → Int} {bits : BitVec w.bits} {out : UInt32 × UInt32} (e : UInt32)

theorem Evaluates.merge (h : Evaluates w value out) : Evaluates w value (out.1, (e &&& ~~~Flag.status) ||| out.2) := by
  refine ⟨h.result, ?_, ?_⟩
  · rw [Flag.test_replace (by decide)]
    exact h.overflow
  · rw [Flag.test_replace (by decide)]
    exact h.adjust

theorem Carries.merge (h : Carries w value out) : Carries w value (out.1, (e &&& ~~~Flag.status) ||| out.2) := by
  rw [Carries, Flag.test_replace (by decide)]
  exact h

theorem Combines.merge (h : Combines bits out) : Combines bits (out.1, (e &&& ~~~Flag.status) ||| out.2) := by
  refine ⟨h.result, ?_, ?_, ?_⟩
  · rw [Flag.test_replace (by decide)]
    exact h.carry
  · rw [Flag.test_replace (by decide)]
    exact h.overflow
  · rw [Flag.test_replace (by decide)]
    exact h.adjust

theorem Describes.merge (h : Describes w 0 out) : Describes w e (out.1, (e &&& ~~~Flag.status) ||| out.2) := by
  refine ⟨?_, ?_, ?_, and_or_cancel h.rest⟩
  · rw [Flag.test_replace (by decide)]
    exact h.zero
  · rw [Flag.test_replace (by decide)]
    exact h.sign
  · rw [Flag.test_replace (by decide)]
    exact h.parity

end Merge

theorem alu_spec (op : AluOp) (w : Width) (a b e : UInt32) :
    Describes w e (alu op w a b e) ∧ AluMeaning w a b e (alu op w a b e) op := by
  have hzero : (0 : UInt32).toNat ≤ 1 := by decide
  have hcarry : (e &&& Flag.cf).toNat ≤ 1 := by
    rw [Flag.toNat_and_cf]
    exact Bool.toNat_le _
  have hcf : ((e &&& Flag.cf).toNat : Int) = (Flag.test e Flag.cf).toNat := congrArg Nat.cast (Flag.toNat_and_cf e)
  cases op with
  | add =>
      obtain ⟨hvalue, hout, hresult⟩ := add_spec (w := w) a b 0 hzero
      simp only [UInt32.toNat_zero, Nat.cast_zero, add_zero] at hvalue hout
      exact ⟨hresult.merge e, hvalue.merge e, hout.merge e⟩
  | adc =>
      obtain ⟨hvalue, hout, hresult⟩ := add_spec (w := w) a b (e &&& Flag.cf) hcarry
      rw [hcf] at hvalue hout
      exact ⟨hresult.merge e, hvalue.merge e, hout.merge e⟩
  | sub | cmp =>
      obtain ⟨hvalue, hout, hresult⟩ := sub_spec (w := w) a b 0 hzero
      simp only [UInt32.toNat_zero, Nat.cast_zero, sub_zero] at hvalue hout
      exact ⟨hresult.merge e, hvalue.merge e, hout.merge e⟩
  | sbb =>
      obtain ⟨hvalue, hout, hresult⟩ := sub_spec (w := w) a b (e &&& Flag.cf) hcarry
      rw [hcf] at hvalue hout
      exact ⟨hresult.merge e, hvalue.merge e, hout.merge e⟩
  | and | test =>
      obtain ⟨hbits, hresult⟩ := logic_spec (w := w) (a &&& b) BitVec.setWidth_and
      exact ⟨hresult.merge e, hbits.merge e⟩
  | or =>
      obtain ⟨hbits, hresult⟩ := logic_spec (w := w) (a ||| b) BitVec.setWidth_or
      exact ⟨hresult.merge e, hbits.merge e⟩
  | xor =>
      obtain ⟨hbits, hresult⟩ := logic_spec (w := w) (a ^^^ b) BitVec.setWidth_xor
      exact ⟨hresult.merge e, hbits.merge e⟩

/-- Only the three readings of the operands count. -/
theorem Evaluates.congr {w : Width} {value value' : (BitVec w.bits → Int) → Int} {out : UInt32 × UInt32} (h : Evaluates w value out)
    (hunsigned : value' unsigned = value unsigned) (hsigned : value' signed = value signed) (hnibble : value' nibble = value nibble) :
    Evaluates w value' out := by
  refine ⟨?_, ?_, ?_⟩
  · rw [hunsigned]
    exact h.result
  · rw [hsigned]
    exact h.overflow
  · rw [hnibble]
    exact h.adjust

theorem Carries.congr {w : Width} {value value' : (BitVec w.bits → Int) → Int} {out : UInt32 × UInt32} (h : Carries w value out)
    (hunsigned : value' unsigned = value unsigned) : Carries w value' out := by
  rw [Carries, hunsigned]
  exact h

theorem readings_zero (w : Width) : unsigned (w.operand 0) = 0 ∧ signed (w.operand 0) = 0 ∧ nibble (w.operand 0) = 0 := by
  cases w <;> decide

theorem readings_one (w : Width) : unsigned (w.operand 1) = 1 ∧ signed (w.operand 1) = 1 ∧ nibble (w.operand 1) = 1 := by
  cases w <;> decide

/-- A step by one has the flags of a sum, but for the carry, which is kept. -/
theorem steps_of {w : Width} {value : (BitVec w.bits → Int) → Int} {e : UInt32} {out out' : UInt32 × UInt32}
    (hvalue : Evaluates w value out) (hresult : Describes w 0 out)
    (hout : out' = (out.1, (e &&& ~~~(Flag.status &&& ~~~Flag.cf)) ||| (out.2 &&& ~~~Flag.cf)))
    (hrest : out'.2 &&& ~~~Flag.status = e &&& ~~~Flag.status) : UnaryMeaning.Steps w e out' value := by
  have htest {f : UInt32} (hf : ~~~(Flag.status &&& ~~~Flag.cf) &&& f = 0 ∧ ~~~Flag.cf &&& f = f) :
      Flag.test out'.2 f = Flag.test out.2 f := by
    rw [hout, Flag.test_replace hf.1, Flag.test_and, hf.2]
  have hkept : Flag.test out'.2 Flag.cf = Flag.test e Flag.cf := by
    have hmask : ~~~(Flag.status &&& ~~~Flag.cf) &&& Flag.cf = Flag.cf ∧ ~~~Flag.cf &&& Flag.cf = 0 := by decide
    rw [hout, Flag.test_or, Flag.test_and, Flag.test_and, hmask.1, hmask.2, Flag.test_zero, Bool.or_false]
  have hfirst : out'.1 = out.1 := by rw [hout]
  refine ⟨⟨?_, ?_, ?_⟩, hkept, ?_, ?_, ?_, hrest⟩
  · rw [hfirst]
    exact hvalue.result
  · rw [htest (by decide)]
    exact hvalue.overflow
  · rw [htest (by decide)]
    exact hvalue.adjust
  · rw [htest (by decide), hfirst]
    exact hresult.zero
  · rw [htest (by decide), hfirst]
    exact hresult.sign
  · rw [htest (by decide), hfirst]
    exact hresult.parity

theorem unary_spec (op : UnaryOp) (w : Width) (a e : UInt32) : UnaryMeaning w a e (unary op w a e) op := by
  have hnone : (0 : UInt32).toNat ≤ 1 := by decide
  cases op with
  | inc =>
      obtain ⟨hvalue, -, hresult⟩ := add_spec (w := w) a 1 0 hnone
      obtain ⟨hunsigned, hsigned, hnibble⟩ := readings_one w
      refine steps_of (hvalue.congr ?_ ?_ ?_) hresult rfl (unary_flags .inc w a e)
      · simp [hunsigned]
      · simp [hsigned]
      · simp [hnibble]
  | dec =>
      obtain ⟨hvalue, -, hresult⟩ := sub_spec (w := w) a 1 0 hnone
      obtain ⟨hunsigned, hsigned, hnibble⟩ := readings_one w
      refine steps_of (hvalue.congr ?_ ?_ ?_) hresult rfl (unary_flags .dec w a e)
      · simp [hunsigned]
      · simp [hsigned]
      · simp [hnibble]
  | neg =>
      obtain ⟨hvalue, hout, hresult⟩ := sub_spec (w := w) 0 a 0 hnone
      obtain ⟨hunsigned, hsigned, hnibble⟩ := readings_zero w
      refine ⟨(hvalue.congr ?_ ?_ ?_).merge e, (hout.congr ?_).merge e, hresult.merge e⟩
      · simp [hunsigned]
      · simp [hsigned]
      · simp [hnibble]
      · simp [hunsigned]
  | not =>
      refine ⟨?_, rfl⟩
      have hle : w.bits ≤ 32 := by cases w <;> decide
      rw [unary, w.toNat_and_mask_eq_operand, Width.operand, UInt32.toBitVec_not, BitVec.setWidth_not hle]
      rfl

/-! ### Comparisons -/

/-- Flags that order two operands: the branch conditions hold as their names say. -/
structure Orders {n : Nat} (x y : BitVec n) (eflags : UInt32) : Prop where
  b : Cond.b.holds eflags = true ↔ unsigned x < unsigned y
  ae : Cond.ae.holds eflags = true ↔ unsigned x ≥ unsigned y
  be : Cond.be.holds eflags = true ↔ unsigned x ≤ unsigned y
  a : Cond.a.holds eflags = true ↔ unsigned x > unsigned y
  l : Cond.l.holds eflags = true ↔ signed x < signed y
  ge : Cond.ge.holds eflags = true ↔ signed x ≥ signed y
  le : Cond.le.holds eflags = true ↔ signed x ≤ signed y
  g : Cond.g.holds eflags = true ↔ signed x > signed y
  e : Cond.e.holds eflags = true ↔ x = y
  ne : Cond.ne.holds eflags = true ↔ x ≠ y

/-- Flags that order two operands are those of a carry, a zero flag, and a sign that differs from the overflow. -/
theorem Orders.of_tests {n : Nat} {x y : BitVec n} {f : UInt32} (hcf : Flag.test f Flag.cf = true ↔ unsigned x < unsigned y)
    (hzf : Flag.test f Flag.zf = true ↔ x = y)
    (hsf : (Flag.test f Flag.sf != Flag.test f Flag.of) = true ↔ signed x < signed y) : Orders x y f := by
  have hunsigned : x = y ↔ unsigned x = unsigned y := by
    rw [unsigned, unsigned, Nat.cast_inj, BitVec.toNat_inj]
  have hsigned : x = y ↔ signed x = signed y := by
    rw [signed, signed, BitVec.toInt_inj]
  refine ⟨hcf, ?_, ?_, ?_, hsf, ?_, ?_, ?_, hzf, ?_⟩
  · rw [Cond.holds, Bool.not_eq_true', ← Bool.not_eq_true, hcf]
    omega
  · rw [Cond.holds, Bool.or_eq_true, hcf, hzf, hunsigned]
    omega
  · rw [Cond.holds, Bool.not_eq_true', ← Bool.not_eq_true, Bool.or_eq_true, hcf, hzf, hunsigned]
    omega
  · rw [Cond.holds, Bool.not_eq_true', ← Bool.not_eq_true, hsf]
    omega
  · rw [Cond.holds, Bool.or_eq_true, hsf, hzf, hsigned]
    omega
  · rw [Cond.holds, Bool.not_eq_true', ← Bool.not_eq_true, Bool.or_eq_true, hsf, hzf, hsigned]
    omega
  · rw [Cond.holds, Bool.not_eq_true', ← Bool.not_eq_true, hzf]

/-- The sign of a difference is wrong if and only if the difference is out of range. -/
theorem signed_lt_iff {w : Width} {x y r : BitVec w.bits} (hr : (r.toNat : Int) = (unsigned x - unsigned y) % 2 ^ w.bits) :
    signed x < signed y ↔ ¬(signed r < 0 ↔ signed r ≠ signed x - signed y) := by
  have hx := x.isLt
  have hy := y.isLt
  simp only [unsigned] at hr
  simp only [signed, BitVec.toInt_eq_toNat_cond]
  cases w <;> simp only [Width.bits, Width.bytes] at * <;> omega

theorem cmp_orders (w : Width) (a b e : UInt32) : Orders (w.operand a) (w.operand b) (alu .cmp w a b e).2 := by
  obtain ⟨hresult, hvalue, hcarry⟩ := alu_spec .cmp w a b e
  have hdiff := hvalue.result
  have hcut : (alu .cmp w a b e).1 &&& w.mask = (alu .cmp w a b e).1 := and_mask_sub w a b 0
  have ha := (w.operand a).isLt
  have hb := (w.operand b).isLt
  have hr : ((w.operand (alu .cmp w a b e).1).toNat : Int) = (unsigned (w.operand a) - unsigned (w.operand b)) % 2 ^ w.bits := by
    rw [toNat_operand_of_cut hcut, hdiff]
  refine .of_tests (hcarry.trans ?_) ?_ ?_
  · simp only [Set.mem_Ico, unsigned]
    cases w <;> simp only [Width.bits, Width.bytes] at * <;> omega
  · rw [hresult.zero, ← UInt32.toNat_inj, ← BitVec.toNat_inj, UInt32.toNat_zero]
    simp only [unsigned] at hdiff
    cases w <;> simp only [Width.bits, Width.bytes] at * <;> omega
  · have hsigned : ((w.operand (alu .cmp w a b e).1).toNat : Int) = (signed (w.operand a) - signed (w.operand b)) % 2 ^ w.bits := by
      rw [hr, unsigned, unsigned, ← signed_emod (w.operand a), ← signed_emod (w.operand b)]
      simp [Int.sub_emod]
    rw [bne_iff_ne, ne_eq, Bool.eq_iff_iff, hresult.sign, hvalue.overflow, ← signed_ne_iff hsigned]
    exact (signed_lt_iff hr).symm

/-- Operations do to integers, or to bits, what their names say, and flags and branch conditions tell what came of it. -/
theorem operations_exact (w : Width) (a b e : UInt32) :
    (∀ op, Describes w e (alu op w a b e) ∧ AluMeaning w a b e (alu op w a b e) op) ∧
      (∀ op, UnaryMeaning w a e (unary op w a e) op) ∧ Orders (w.operand a) (w.operand b) (alu .cmp w a b e).2 :=
  ⟨fun op => alu_spec op w a b e, fun op => unary_spec op w a e, cmp_orders w a b e⟩

end Arithmetic

end Recompiler
