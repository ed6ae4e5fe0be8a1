import Recompiler.Interpreter
import Recompiler.Dispatch.BlockEnv
import Recompiler.Proofs.Guest.Arithmetic

/-! Division is exact, or it is refused. It goes through exactly if the divisor is not zero and the quotient toward zero
fits the width; then the two registers of the dividend hold the quotient and the remainder, and no other bit of the
processor changes. Otherwise a divide error is raised on the processor as it was. -/

namespace Recompiler

/-! ### Bits of registers -/

namespace Reg

/-- The lowest bit of its general register that a view shows. -/
def lowest (r : Reg) : Nat :=
  match r.width, r.high8 with
  | .w8, true => 8
  | _, _ => 0

/-- A bit of a general register is one of those that a view shows. -/
def Shows (r : Reg) (g : Gpr) (i : Nat) : Prop :=
  r.gpr = g ∧ r.lowest ≤ i ∧ i < r.lowest + r.width.bits

instance (r : Reg) (g : Gpr) (i : Nat) : Decidable (r.Shows g i) :=
  inferInstanceAs (Decidable (r.gpr = g ∧ r.lowest ≤ i ∧ i < r.lowest + r.width.bits))

theorem lowest_add_bits_le (r : Reg) : r.lowest + r.width.bits ≤ 32 := by
  obtain ⟨g, w, high⟩ := r
  cases w <;> cases high <;> simp [lowest, Width.bits, Width.bytes]

theorem lowest_lt (r : Reg) : r.lowest < 32 := by
  have hle := r.lowest_add_bits_le
  have hpos : 0 < r.width.bits := by cases r.width <;> decide
  omega

end Reg

section Bits

variable (x : UInt32)

theorem Width.testBit_mask (w : Width) (i : Nat) : w.mask.toNat.testBit i = decide (i < w.bits) := by
  rw [w.toNat_mask, Nat.testBit_two_pow_sub_one]

theorem testBit_not {i : Nat} (hi : i < 32) : (~~~x).toNat.testBit i = !x.toNat.testBit i := by
  have h : (~~~x.toBitVec).getLsbD i = (decide (i < 32) && !x.toBitVec.getLsbD i) := BitVec.getLsbD_not
  rwa [decide_eq_true hi, Bool.true_and] at h

theorem toNat_toUInt32_mod {k : Nat} (hk : k < 32) : k.toUInt32.toNat % 32 = k := by
  rw [Nat.toUInt32, UInt32.toNat_ofNat']
  omega

theorem testBit_shiftRight {k : Nat} (hk : k < 32) (i : Nat) : (x >>> k.toUInt32).toNat.testBit i = x.toNat.testBit (k + i) := by
  rw [UInt32.toNat_shiftRight, toNat_toUInt32_mod hk, Nat.testBit_shiftRight]

theorem testBit_shiftLeft {k i : Nat} (hk : k < 32) (hi : i < 32) :
    (x <<< k.toUInt32).toNat.testBit i = (decide (k ≤ i) && x.toNat.testBit (i - k)) := by
  rw [UInt32.toNat_shiftLeft, toNat_toUInt32_mod hk, Nat.testBit_mod_two_pow, decide_eq_true hi, Bool.true_and,
    Nat.testBit_shiftLeft]

end Bits

theorem Gpr.index_inj {g g' : Gpr} : g.index = g'.index ↔ g = g' := by
  cases g <;> cases g' <;> decide

namespace Cpu

variable (c : Cpu) (r : Reg) (value : UInt32)

theorem gpr_setGpr (g g' : Gpr) : (c.setGpr g value).gpr g' = if g = g' then value else c.gpr g' := by
  have hset := @Vector.getElem_set _ _ c.regs g.index value g.index.isLt g'.index g'.index.isLt
  simp only [Fin.val_inj, Gpr.index_inj] at hset
  exact hset

theorem reg_eq_shift : c.reg r = (c.gpr r.gpr >>> r.lowest.toUInt32) &&& r.width.mask := by
  obtain ⟨g, w, high⟩ := r
  cases w <;> cases high <;> rfl

theorem setReg_eq_shift : c.setReg r value = c.setGpr r.gpr
    ((c.gpr r.gpr &&& ~~~(r.width.mask <<< r.lowest.toUInt32)) ||| ((value &&& r.width.mask) <<< r.lowest.toUInt32)) := by
  obtain ⟨g, w, high⟩ := r
  have hmask : (0xFFFF00FF : UInt32) = ~~~((0xFF : UInt32) <<< 8) := by decide
  cases w <;> cases high <;> simp [setReg, Reg.lowest, Width.mask, hmask]

theorem testBit_reg (i : Nat) :
    (c.reg r).toNat.testBit i = (decide (i < r.width.bits) && (c.gpr r.gpr).toNat.testBit (r.lowest + i)) := by
  rw [c.reg_eq_shift, UInt32.toNat_and, Nat.testBit_and, testBit_shiftRight _ r.lowest_lt, r.width.testBit_mask, Bool.and_comm]

/-- A write to a view changes the bits that it shows, and no others. -/
theorem testBit_setReg (g : Gpr) {i : Nat} (hi : i < 32) : ((c.setReg r value).gpr g).toNat.testBit i =
    if r.Shows g i then value.toNat.testBit (i - r.lowest) else (c.gpr g).toNat.testBit i := by
  rw [setReg_eq_shift, gpr_setGpr]
  by_cases hg : r.gpr = g
  · subst hg
    have hshows : r.Shows r.gpr i ↔ r.lowest ≤ i ∧ i - r.lowest < r.width.bits := by
      simp only [Reg.Shows, true_and]
      omega
    rw [if_pos rfl, UInt32.toNat_or, Nat.testBit_or, UInt32.toNat_and, Nat.testBit_and, testBit_not _ hi,
      testBit_shiftLeft _ r.lowest_lt hi, testBit_shiftLeft _ r.lowest_lt hi, UInt32.toNat_and, Nat.testBit_and,
      r.width.testBit_mask]
    by_cases hin : r.lowest ≤ i ∧ i - r.lowest < r.width.bits
    · simp [hshows, hin]
    · rw [if_neg (hshows.not.mpr hin)]
      rw [not_and_or] at hin
      obtain hin | hin := hin <;> simp [hin]
  · rw [if_neg hg, if_neg fun h => hg h.1]

/-- A view shows what was written to it. -/
theorem operand_reg_setReg : r.width.operand ((c.setReg r value).reg r) = r.width.operand value := by
  apply BitVec.eq_of_getLsbD_eq
  intro i hi
  have hle := r.lowest_add_bits_le
  have hshows : r.Shows r.gpr (r.lowest + i) := ⟨rfl, by omega, by omega⟩
  rw [Width.operand, Width.operand, BitVec.getLsbD_setWidth, BitVec.getLsbD_setWidth]
  refine congrArg _ ((testBit_reg _ r i).trans ?_)
  rw [testBit_setReg c r value r.gpr (by omega), if_pos hshows, decide_eq_true hi, Bool.true_and, Nat.add_sub_cancel_left]
  rfl

/-- A view does not change with a write to another one that shares no bit with it. -/
theorem reg_setReg_of_disjoint {r r' : Reg} (h : ∀ g i, r.Shows g i → ¬r'.Shows g i) : (c.setReg r' value).reg r = c.reg r := by
  rw [← UInt32.toNat_inj]
  apply Nat.eq_of_testBit_eq
  intro i
  rw [testBit_reg, testBit_reg]
  by_cases hi : i < r.width.bits
  · have hle := r.lowest_add_bits_le
    rw [testBit_setReg c r' value r.gpr (by omega), if_neg (h r.gpr _ ⟨rfl, by omega, by omega⟩)]
  · rw [decide_eq_false hi, Bool.false_and, Bool.false_and]

section QuotRem

variable (w : Width) (quotient remainder : UInt32)

@[simp] theorem width_divisionHigh : (divisionHigh w).width = w := by
  cases w <;> rfl

theorem shows_low_not_high (g : Gpr) (i : Nat) (hlow : (divisionLow w).Shows g i) : ¬(divisionHigh w).Shows g i := by
  intro hhigh
  obtain ⟨rfl, -, hlt⟩ := hlow
  obtain ⟨hg, hge, -⟩ := hhigh
  cases w with
  | w8 =>
      simp only [divisionLow, divisionHigh, Reg.lowest, Width.bits, Width.bytes] at hlt hge
      omega
  | w16 | w32 => cases hg

/-- The low register holds the quotient, the high one the remainder. -/
theorem operand_setQuotRem : w.operand ((c.setQuotRem w quotient remainder).reg (divisionLow w)) = w.operand quotient ∧
    w.operand ((c.setQuotRem w quotient remainder).reg (divisionHigh w)) = w.operand remainder := by
  constructor
  · rw [setQuotRem, reg_setReg_of_disjoint _ _ (shows_low_not_high w)]
    exact operand_reg_setReg c (divisionLow w) quotient
  · have h := operand_reg_setReg (c.setReg (divisionLow w) quotient) (divisionHigh w) remainder
    rwa [width_divisionHigh] at h

theorem testBit_setQuotRem {g : Gpr} {i : Nat} (hi : i < 32) (hlow : ¬(divisionLow w).Shows g i) (hhigh : ¬(divisionHigh w).Shows g i) :
    ((c.setQuotRem w quotient remainder).gpr g).toNat.testBit i = (c.gpr g).toNat.testBit i := by
  rw [setQuotRem, testBit_setReg _ _ _ _ hi, if_neg hhigh, testBit_setReg _ _ _ _ hi, if_neg hlow]

end QuotRem

end Cpu

/-! ### Numbers -/

/-- A number in two's complement, or without a sign. -/
def number (signed : Bool) {n : Nat} (x : BitVec n) : Int :=
  if signed then Arithmetic.signed x else Arithmetic.unsigned x

namespace Width

variable (w : Width)

/-- The numbers of a width. -/
def range (signed : Bool) : Set Int :=
  if signed then Set.Ico (-2 ^ (w.bits - 1)) (2 ^ (w.bits - 1)) else Set.Ico 0 (2 ^ w.bits)

/-- A word shifted up and back down again is the number of its low bits. -/
theorem toInt_signedDividend {dividend : UInt64} {x : BitVec (w.bits + w.bits)} (h : dividend.toNat = x.toNat) :
    (w.signedDividend dividend).toInt = x.toInt := by
  have hcard : 2 ^ 64 = 2 ^ (w.bits + w.bits) * 2 ^ (64 - 2 * w.bits) := by cases w <;> decide
  have hpos : ((2 ^ (64 - 2 * w.bits) : Nat) : Int) ≠ 0 := by positivity
  have hmod : x.toNat * 2 ^ (64 - 2 * w.bits) % 2 ^ 64 = x.toNat * 2 ^ (64 - 2 * w.bits) := by
    apply Nat.mod_eq_of_lt
    rw [hcard]
    exact Nat.mul_lt_mul_of_pos_right x.isLt (Nat.two_pow_pos _)
  have hhalf : 2 * (x.toNat * 2 ^ (64 - 2 * w.bits)) < 2 ^ 64 ↔ 2 * x.toNat < 2 ^ (w.bits + w.bits) := by
    rw [hcard, ← Nat.mul_assoc]
    exact Nat.mul_lt_mul_right (Nat.two_pow_pos _)
  have hup : (64 - 2 * w.bits).toUInt64.toNat % 64 = 64 - 2 * w.bits := by cases w <;> decide
  have hdown : ((Int64.ofNat (64 - 2 * w.bits)).toBitVec.smod 64).toNat = 64 - 2 * w.bits := by cases w <;> decide
  rw [signedDividend, ← Int64.toInt_toBitVec, Int64.toBitVec_shiftRight, BitVec.sshiftRight_eq', hdown, BitVec.toInt_sshiftRight,
    Int.shiftRight_eq_div_pow, UInt64.toBitVec_toInt64, BitVec.toInt_eq_toNat_cond, BitVec.toInt_eq_toNat_cond,
    UInt64.toNat_toBitVec, UInt64.toNat_shiftLeft, hup, h, Nat.shiftLeft_eq, hmod]
  by_cases hnonneg : 2 * x.toNat < 2 ^ (w.bits + w.bits)
  · rw [if_pos (hhalf.mpr hnonneg), if_pos hnonneg, Nat.cast_mul, Int.mul_ediv_cancel _ hpos]
  · rw [if_neg (hhalf.not.mpr hnonneg), if_neg hnonneg, hcard, Nat.cast_mul, Nat.cast_mul, ← Int.sub_mul,
      Int.mul_ediv_cancel _ hpos]

theorem toInt_signedDivisor (divisor : UInt32) : (w.signedDivisor (divisor &&& w.mask)).toInt = (w.operand divisor).toInt := by
  have hlt := (w.operand divisor).isLt
  have hword := w.toNat_and_mask_eq_operand divisor
  have hsign : (divisor &&& w.mask) &&& w.signBit ≠ 0 ↔ 2 ^ (w.bits - 1) ≤ (w.operand divisor).toNat := by
    have htest := w.test_signBit (divisor &&& w.mask)
    rwa [w.operand_and_mask, BitVec.msb_eq_decide, Flag.test, decide_eq_decide] at htest
  have hhigh : (~~~w.mask).toNat = (2 ^ (32 - w.bits) - 1) <<< w.bits := by cases w <;> decide
  rw [signedDivisor, Int32.toInt_toInt64, ← Int32.toInt_toBitVec, UInt32.toBitVec_toInt32, signExtend, BitVec.toInt_eq_toNat_cond,
    UInt32.toNat_toBitVec, BitVec.toInt_eq_toNat_cond]
  by_cases hneg : 2 ^ (w.bits - 1) ≤ (w.operand divisor).toNat
  · rw [if_neg (hsign.mpr hneg), UInt32.toNat_or, hword, hhigh, Nat.or_comm, ← Nat.shiftLeft_add_eq_or_of_lt hlt, Nat.shiftLeft_eq]
    cases w <;> simp only [bits, bytes] at hlt hneg ⊢ <;> omega
  · rw [if_pos (not_not.mp (hsign.not.mpr hneg)), UInt32.and_assoc, UInt32.and_self, hword]
    cases w <;> simp only [bits, bytes] at hlt hneg ⊢ <;> omega

theorem toInt_signedLimit : w.signedLimit.toInt = 2 ^ (w.bits - 1) := by
  cases w <;> decide

theorem signedDivisor_zero : w.signedDivisor 0 = 0 := by
  cases w <;> rfl

/-- A number that fits is kept when it is cut to the width. -/
theorem toInt_operand {x : Int64} (h : x.toInt ∈ w.range true) : (w.operand x.toUInt64.toUInt32).toInt = x.toInt := by
  have hlt := x.toUInt64.toNat_lt
  have hx : x.toInt = if 2 * x.toUInt64.toNat < 2 ^ 64 then (x.toUInt64.toNat : Int) else x.toUInt64.toNat - (2 ^ 64 : Nat) := 
    BitVec.toInt_eq_toNat_cond x.toBitVec
  rw [range, if_pos rfl, Set.mem_Ico] at h
  rw [BitVec.toInt_eq_toNat_cond, toNat_operand, UInt64.toNat_toUInt32]
  cases w <;> simp only [bits, bytes] at h ⊢ <;> omega

end Width

/-- Both halves of a dividend. -/
def Cpu.halves (c : Cpu) (w : Width) : BitVec (w.bits + w.bits) :=
  w.operand (c.reg (divisionHigh w)) ++ w.operand (c.reg (divisionLow w))

theorem Cpu.toNat_reg_lt (c : Cpu) (r : Reg) : (c.reg r).toNat < 2 ^ r.width.bits := by
  rw [reg_eq_shift, r.width.toNat_and_mask]
  exact Nat.mod_lt _ (Nat.two_pow_pos _)

theorem Cpu.toNat_dividend (c : Cpu) (w : Width) : (c.dividend w).toNat = (c.halves w).toNat := by
  have hlow : (c.reg (divisionLow w)).toNat < 2 ^ w.bits := c.toNat_reg_lt (divisionLow w)
  have hhigh := c.toNat_reg_lt (divisionHigh w)
  have hshift : w.bits.toUInt64.toNat % 64 = w.bits := by cases w <;> decide
  rw [width_divisionHigh] at hhigh
  rw [dividend, halves, UInt64.toNat_or, UInt64.toNat_shiftLeft, hshift, BitVec.toNat_append, w.toNat_operand, w.toNat_operand,
    UInt32.toNat_toUInt64, UInt32.toNat_toUInt64, Nat.mod_eq_of_lt hhigh, Nat.mod_eq_of_lt hlow, Nat.mod_eq_of_lt]
  calc (c.reg (divisionHigh w)).toNat <<< w.bits = (c.reg (divisionHigh w)).toNat * 2 ^ w.bits := Nat.shiftLeft_eq ..
    _ < 2 ^ w.bits * 2 ^ w.bits := Nat.mul_lt_mul_of_pos_right hhigh (Nat.two_pow_pos _)
    _ ≤ 2 ^ 64 := by cases w <;> decide

/-! ### Quotients and remainders -/

/-- The divisor is not zero, and the quotient toward zero fits the width. -/
def Divisible (w : Width) (signed : Bool) (n d : Int) : Prop :=
  d ≠ 0 ∧ n.tdiv d ∈ w.range signed

/-- The words of the quotient and of the remainder, or nothing if the numbers are not to be divided. -/
def Settles (w : Width) (signed : Bool) (n d : Int) : Option (UInt32 × UInt32) → Prop
  | some (q, r) => Divisible w signed n d ∧ number signed (w.operand q) = n.tdiv d ∧ number signed (w.operand r) = n.tmod d
  | none => ¬Divisible w signed n d

section Signed

variable {n d : Int64}

theorem checkedDiv_eq_none_iff : checkedDiv n d = none ↔ d.toInt = 0 ∨ n.toInt = -2 ^ 63 ∧ d.toInt = -1 := by
  have hmin : n = Int64.minValue ↔ n.toInt = -2 ^ 63 := by
    rw [← Int64.toInt_inj, Int64.toInt_minValue]
  have hone : d = -1 ↔ d.toInt = -1 := by
    rw [← Int64.toInt_inj]
    rfl
  have hzero : d = 0 ↔ d.toInt = 0 := by
    rw [← Int64.toInt_inj]
    rfl
  rw [← hzero, ← hmin, ← hone, checkedDiv, ite_eq_left_iff]
  simp only [reduceCtorEq, imp_false, not_not]

theorem toInt_of_checkedDiv {q : Int64} (h : checkedDiv n d = some q) : q.toInt = n.toInt.tdiv d.toInt := by
  unfold checkedDiv at h
  split at h
  · cases h
  · rename_i hsafe
    cases h
    by_cases hn : n = Int64.minValue
    · exact Int64.toInt_div_of_ne_right n d fun hd => hsafe (.inr ⟨hn, hd⟩)
    · exact Int64.toInt_div_of_ne_left n d hn

theorem checkedRem_of_checkedDiv {q : Int64} (h : checkedDiv n d = some q) : checkedRem n d = some (n % d) := by
  unfold checkedDiv at h
  split at h
  · cases h
  · rename_i hsafe
    exact if_neg hsafe

end Signed

namespace Width

variable (w : Width)

theorem toInt_operand_mem_range (x : UInt32) : (w.operand x).toInt ∈ w.range true := by
  rw [range, if_pos rfl, Set.mem_Ico]
  exact ⟨BitVec.le_toInt _, BitVec.toInt_lt⟩

variable {w}

/-- A remainder fits where the divisor does. -/
theorem tmod_mem_range (n : Int) {d : Int} (hd : d ∈ w.range true) (hzero : d ≠ 0) : n.tmod d ∈ w.range true := by
  have hlt : (n.tmod d).natAbs < d.natAbs := by
    rw [Int.natAbs_tmod]
    exact Nat.mod_lt _ (Int.natAbs_pos.mpr hzero)
  rw [range, if_pos rfl, Set.mem_Ico] at hd ⊢
  omega

theorem mem_range_iff (q : Int64) : q.toInt ∈ w.range true ↔ -w.signedLimit ≤ q ∧ q < w.signedLimit := by
  have hneg : (-w.signedLimit).toInt = -2 ^ (w.bits - 1) := by cases w <;> decide
  rw [Int64.le_iff_toInt_le, Int64.lt_iff_toInt_lt, hneg, w.toInt_signedLimit, range, if_pos rfl, Set.mem_Ico]

end Width

namespace Cpu

variable (c : Cpu) (w : Width) (divisor : UInt32)

theorem quotRem_settles_signed : Settles w true (c.halves w).toInt (w.operand divisor).toInt
    (quotRem w true (c.dividend w) (divisor &&& w.mask)) := by
  have hn := w.toInt_signedDividend (c.toNat_dividend w)
  have hd := w.toInt_signedDivisor divisor
  unfold quotRem
  dsimp only
  rw [if_pos rfl]
  cases hdiv : checkedDiv (w.signedDividend (c.dividend w)) (w.signedDivisor (divisor &&& w.mask)) with
  | none =>
      rw [checkedDiv_eq_none_iff, hn, hd] at hdiv
      rw [Option.bind_none]
      rintro ⟨hzero, hfits⟩
      obtain hdiv | ⟨hmin, hone⟩ := hdiv
      · exact hzero hdiv
      · -- The one quotient of two words that is not a word is far beyond every width.
        have hquotient : (-2 ^ 63 : Int).tdiv (-1) = 2 ^ 63 := by decide
        rw [hmin, hone, hquotient, Width.range, if_pos rfl, Set.mem_Ico] at hfits
        have hpow : (2 : Int) ^ (w.bits - 1) ≤ 2 ^ 31 := by cases w <;> decide
        omega
  | some q =>
      have hq := toInt_of_checkedDiv hdiv
      have hne : (w.operand divisor).toInt ≠ 0 := fun hzero => by
        rw [checkedDiv_eq_none_iff.mpr (.inl (hd.trans hzero))] at hdiv
        cases hdiv
      have hr : (w.signedDividend (c.dividend w) % w.signedDivisor (divisor &&& w.mask)).toInt =
          (c.halves w).toInt.tmod (w.operand divisor).toInt := by
        rw [Int64.toInt_mod, hn, hd]
      rw [hn, hd] at hq
      rw [Option.bind_some, checkedRem_of_checkedDiv hdiv, Option.bind_some]
      by_cases hfits : q.toInt ∈ w.range true
      · rw [if_pos (Width.mem_range_iff q |>.mp hfits)]
        refine ⟨⟨hne, hq ▸ hfits⟩, (w.toInt_operand hfits).trans hq, (w.toInt_operand ?_).trans hr⟩
        rw [hr]
        exact Width.tmod_mem_range _ (w.toInt_operand_mem_range divisor) hne
      · rw [if_neg (Width.mem_range_iff q |>.not.mp hfits)]
        exact fun h => hfits (hq ▸ h.2)

theorem quotRem_settles_unsigned : Settles w false (c.halves w).toNat (w.operand divisor).toNat
    (quotRem w false (c.dividend w) (divisor &&& w.mask)) := by
  have hn := c.toNat_dividend w
  have hd : (divisor &&& w.mask).toUInt64.toNat = (w.operand divisor).toNat := by
    rw [UInt32.toNat_toUInt64, w.toNat_and_mask_eq_operand]
  have hpow : ((2 ^ w.bits : Nat) : Int) = 2 ^ w.bits := Nat.cast_pow ..
  have hcut {x : UInt64} (hx : x.toNat < 2 ^ w.bits) : number false (w.operand x.toUInt32) = x.toNat := by
    have hbits : w.bits ≤ 32 := by cases w <;> decide
    have hword : (w.operand x.toUInt32).toNat = x.toNat := by
      rw [w.toNat_operand, UInt64.toNat_toUInt32, Nat.mod_eq_of_lt (hx.trans_le (Nat.pow_le_pow_right (by decide) hbits)),
        Nat.mod_eq_of_lt hx]
    exact congrArg Nat.cast hword
  have hzero : (divisor &&& w.mask).toUInt64 ≠ 0 ↔ ((w.operand divisor).toNat : Int) ≠ 0 := by
    rw [ne_eq, ← UInt64.toNat_inj, hd, ne_eq, Nat.cast_eq_zero]
    rfl
  have hfits : c.dividend w / (divisor &&& w.mask).toUInt64 ≤ w.mask.toUInt64 ↔
      ((c.halves w).toNat : Int).tdiv (w.operand divisor).toNat ∈ w.range false := by
    rw [UInt64.le_iff_toNat_le, UInt64.toNat_div, hn, hd, UInt32.toNat_toUInt64, w.toNat_mask, ← Int.ofNat_tdiv, Width.range,
      if_neg Bool.false_ne_true, Set.mem_Ico, ← hpow]
    generalize (c.halves w).toNat / (w.operand divisor).toNat = q
    have hpos := Nat.two_pow_pos w.bits
    omega
  unfold quotRem
  dsimp only
  rw [if_neg Bool.false_ne_true]
  by_cases h : (divisor &&& w.mask).toUInt64 ≠ 0 ∧ c.dividend w / (divisor &&& w.mask).toUInt64 ≤ w.mask.toUInt64
  · have hpos : 0 < (w.operand divisor).toNat := by
      have hne := hzero.mp h.1
      omega
    have hq : (c.dividend w / (divisor &&& w.mask).toUInt64).toNat < 2 ^ w.bits := by
      have hle := UInt64.le_iff_toNat_le.mp h.2
      rw [UInt32.toNat_toUInt64, w.toNat_mask] at hle
      have hcard := Nat.two_pow_pos w.bits
      omega
    have hr : (c.dividend w % (divisor &&& w.mask).toUInt64).toNat < 2 ^ w.bits := by
      rw [UInt64.toNat_mod, hd]
      exact (Nat.mod_lt _ hpos).trans (w.operand divisor).isLt
    rw [if_pos h]
    refine ⟨⟨hzero.mp h.1, hfits.mp h.2⟩, (hcut hq).trans ?_, (hcut hr).trans ?_⟩
    · rw [UInt64.toNat_div, hn, hd, Int.ofNat_tdiv]
    · rw [UInt64.toNat_mod, hn, hd, Int.ofNat_tmod]
  · rw [if_neg h]
    exact fun hdiv => h ⟨hzero.mpr hdiv.1, hfits.mpr hdiv.2⟩

theorem quotRem_settles (signed : Bool) : Settles w signed (number signed (c.halves w)) (number signed (w.operand divisor))
    (quotRem w signed (c.dividend w) (divisor &&& w.mask)) := by
  cases signed
  · exact quotRem_settles_unsigned c w divisor
  · exact quotRem_settles_signed c w divisor

/-- A processor whose dividend was divided exactly: the remainder is smaller than the divisor and has the sign of the
dividend, and all bits outside of the two registers are as before. -/
structure Divided (w : Width) (signed : Bool) (divisor : UInt32) (c c' : Cpu) : Prop where
  quotient : number signed (w.operand (c'.reg (divisionLow w))) = (number signed (c.halves w)).tdiv (number signed (w.operand divisor))
  exact : number signed (c.halves w) = number signed (w.operand (c'.reg (divisionLow w))) * number signed (w.operand divisor) +
    number signed (w.operand (c'.reg (divisionHigh w)))
  smaller : |number signed (w.operand (c'.reg (divisionHigh w)))| < |number signed (w.operand divisor)|
  sign : number signed (w.operand (c'.reg (divisionHigh w))) = 0 ∨
    (number signed (w.operand (c'.reg (divisionHigh w)))).sign = (number signed (c.halves w)).sign
  bits : ∀ g, ∀ i < 32, ¬(divisionLow w).Shows g i → ¬(divisionHigh w).Shows g i →
    (c'.gpr g).toNat.testBit i = (c.gpr g).toNat.testBit i
  others : c' = { c with regs := c'.regs }

theorem divided_setQuotRem {w : Width} {signed : Bool} {divisor q r : UInt32}
    (h : Settles w signed (number signed (c.halves w)) (number signed (w.operand divisor)) (some (q, r))) :
    Divided w signed divisor c (c.setQuotRem w q r) := by
  obtain ⟨⟨hzero, -⟩, hq, hr⟩ := h
  obtain ⟨hlow, hhigh⟩ := c.operand_setQuotRem w q r
  refine ⟨?_, ?_, ?_, ?_, fun g i hi => c.testBit_setQuotRem w q r hi, rfl⟩
  · rw [hlow, hq]
  · rw [hlow, hhigh, hq, hr, Int.tdiv_mul_add_tmod]
  · rw [hhigh, hr, Int.abs_eq_natAbs, Int.abs_eq_natAbs, Int.natAbs_tmod, Nat.cast_lt]
    exact Nat.mod_lt _ (Int.natAbs_pos.mpr hzero)
  · rw [hhigh, hr, Int.sign_tmod]
    by_cases hdvd : number signed (w.operand divisor) ∣ number signed (c.halves w)
    · exact .inl (Int.tmod_eq_zero_of_dvd hdvd)
    · exact .inr (if_neg hdvd)

end Cpu

/-- The interpreter looks at the divisor first, and comes to the same. -/
theorem Interpreter.divide_eq (c : Cpu) (w : Width) (signed : Bool) (divisor : UInt32) :
    divide c w signed divisor = c.divide w signed divisor := by
  unfold divide Cpu.divide quotRem
  dsimp only
  by_cases hd : divisor &&& w.mask = 0
  · cases signed <;> simp [hd, w.signedDivisor_zero, checkedDiv]
  · rw [if_neg hd]
    cases signed with
    | false =>
        have hne : (divisor &&& w.mask).toUInt64 ≠ 0 := fun hzero => by
          rw [← UInt64.toNat_inj, UInt32.toNat_toUInt64] at hzero
          exact hd (UInt32.toNat_inj.mp hzero)
        rw [if_neg Bool.false_ne_true, if_neg Bool.false_ne_true]
        by_cases hq : c.dividend w / (divisor &&& w.mask).toUInt64 ≤ w.mask.toUInt64
        · rw [if_neg (UInt64.not_lt.mpr hq), if_pos ⟨hne, hq⟩]
          rfl
        · rw [if_pos (UInt64.not_le.mp hq), if_neg fun h => hq h.2]
          rfl
    | true =>
        rw [if_pos rfl, if_pos rfl]
        cases hdiv : checkedDiv (w.signedDividend (c.dividend w)) (w.signedDivisor (divisor &&& w.mask)) with
        | none => rfl
        | some q =>
            rw [checkedRem_of_checkedDiv hdiv, Option.bind_some, Option.bind_some]
            dsimp only
            by_cases hq : -w.signedLimit ≤ q ∧ q < w.signedLimit
            · rw [if_pos hq, if_neg (not_or.mpr ⟨Int64.not_lt.mpr hq.1, Int64.not_le.mpr hq.2⟩)]
              rfl
            · rw [if_neg hq, if_pos ((not_and_or.mp hq).imp Int64.not_le.mp Int64.not_lt.mp)]
              rfl

namespace BlockEnv

variable {σ : Type} (p : Platform σ) {w : Width} {signed : Bool} {divisor : UInt32} {cpu : Cpu}

theorem divide_of_some {cpu' : Cpu} (h : cpu.divide w signed divisor = some cpu') (env : BlockEnv σ) :
    divide p w signed divisor cpu env = .ok (.ok (), cpu', env) := by
  unfold divide
  dsimp only
  rw [h]

theorem divide_of_none (h : cpu.divide w signed divisor = none) (env : BlockEnv σ) :
    ∃ g, g = p.raiseException divideError none ⟨cpu, env.bus, env.host⟩ ∧ divide p w signed divisor cpu env =
      .ok (.error .normal, g.cpu, ⟨g.bus, g.host, { env.stats with divideErrors := env.stats.divideErrors + 1 }⟩) := by
  refine ⟨_, rfl, ?_⟩
  unfold divide
  dsimp only
  rw [h]

/-- A division goes through exactly if the divisor is not zero and the quotient fits; then it is exact. Otherwise a divide
error is raised, once and on the processor as it was. The interpreter comes to the same. -/
theorem divide_exact (w : Width) (signed : Bool) (divisor : UInt32) (cpu : Cpu) (env : BlockEnv σ) :
    (Divisible w signed (number signed (cpu.halves w)) (number signed (w.operand divisor)) ∧
      ∃ cpu', divide p w signed divisor cpu env = .ok (.ok (), cpu', env) ∧ Cpu.Divided w signed divisor cpu cpu' ∧
        Interpreter.divide cpu w signed divisor = some cpu') ∨
    (¬Divisible w signed (number signed (cpu.halves w)) (number signed (w.operand divisor)) ∧
      (∃ g, g = p.raiseException divideError none ⟨cpu, env.bus, env.host⟩ ∧ divide p w signed divisor cpu env =
        .ok (.error .normal, g.cpu, ⟨g.bus, g.host, { env.stats with divideErrors := env.stats.divideErrors + 1 }⟩)) ∧
      Interpreter.divide cpu w signed divisor = none) := by
  have hsettles := cpu.quotRem_settles w divisor signed
  rw [Interpreter.divide_eq]
  cases hquot : quotRem w signed (cpu.dividend w) (divisor &&& w.mask) with
  | none =>
      have hdiv : cpu.divide w signed divisor = none := by rw [Cpu.divide, hquot, Option.map_none]
      rw [hquot] at hsettles
      exact .inr ⟨hsettles, divide_of_none p hdiv env, hdiv⟩
  | some qr =>
      obtain ⟨q, r⟩ := qr
      have hdiv : cpu.divide w signed divisor = some (cpu.setQuotRem w q r) := by rw [Cpu.divide, hquot, Option.map_some]
      rw [hquot] at hsettles
      exact .inl ⟨hsettles.1, _, divide_of_some p hdiv env, cpu.divided_setQuotRem hsettles, hdiv⟩

end BlockEnv

end Recompiler
