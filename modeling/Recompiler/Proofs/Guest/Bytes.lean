import Mathlib
import Recompiler.Guest.Width

/-! Words and their bytes. Splitting a word into the bytes of a width and joining bytes to a word undo each other, up to the
bits that the width leaves out. -/

namespace Recompiler

theorem toNat_byteAt (value : UInt32) {i : Nat} (hi : i < 4) : (byteAt value i).toNat = value.toNat / 2 ^ (8 * i) % 256 := by
  have hshift : (8 * i).toUInt32.toNat % 32 = 8 * i := by
    rw [Nat.toUInt32, UInt32.toNat_ofNat']
    omega
  rw [byteAt, UInt32.toNat_toUInt8, UInt32.toNat_shiftRight, hshift, Nat.shiftRight_eq_div_pow]

theorem Width.toNat_mask (w : Width) : w.mask.toNat = 2 ^ w.bits - 1 := by
  cases w <;> rfl

theorem Width.toNat_and_mask (w : Width) (value : UInt32) : (value &&& w.mask).toNat = value.toNat % 2 ^ w.bits := by
  rw [UInt32.toNat_and, w.toNat_mask, Nat.and_two_pow_sub_one_eq_mod]

/-- The bytes of a word are the digits of a number. -/
theorem toNat_joinBytes_lt {bytes : List UInt8} (h : bytes.length ≤ 4) : (joinBytes bytes).toNat < 2 ^ (8 * bytes.length) := by
  induction bytes with
  | nil => decide
  | cons b rest ih =>
      have hrest := ih (by simp only [List.length_cons] at h; omega)
      have hb := b.toNat_lt
      have hlt : (joinBytes rest).toNat <<< 8 % 2 ^ 32 < 2 ^ (8 * (rest.length + 1)) := by
        refine Nat.lt_of_le_of_lt (Nat.mod_le _ _) ?_
        rw [Nat.shiftLeft_eq, Nat.mul_add, Nat.pow_add]
        exact Nat.mul_lt_mul_of_pos_right hrest (by decide)
      rw [joinBytes, UInt32.toNat_or, UInt32.toNat_shiftLeft, UInt8.toNat_toUInt32, List.length_cons]
      refine Nat.or_lt_two_pow (Nat.lt_of_lt_of_le hb ?_) hlt
      exact Nat.pow_le_pow_right (by decide) (by omega)

theorem toNat_joinBytes_cons (b : UInt8) {rest : List UInt8} (h : rest.length ≤ 3) :
    (joinBytes (b :: rest)).toNat = b.toNat + 256 * (joinBytes rest).toNat := by
  have hrest := toNat_joinBytes_lt (h.trans (by decide))
  have hpow : 2 ^ (8 * rest.length) ≤ 2 ^ 24 := Nat.pow_le_pow_right (by decide) (by omega)
  have hmod : (joinBytes rest).toNat <<< 8 % 2 ^ 32 = 2 ^ 8 * (joinBytes rest).toNat := by
    rw [Nat.shiftLeft_eq, Nat.mul_comm, Nat.mod_eq_of_lt]
    omega
  have height : (8 : UInt32).toNat % 32 = 8 := rfl
  rw [joinBytes, UInt32.toNat_or, UInt32.toNat_shiftLeft, UInt8.toNat_toUInt32, height, hmod, Nat.or_comm,
    ← Nat.two_pow_add_eq_or_of_lt b.toNat_lt, Nat.add_comm]

theorem byteAt_joinBytes {bytes : List UInt8} (hlen : bytes.length ≤ 4) {i : Nat} (hi : i < bytes.length) :
    byteAt (joinBytes bytes) i = bytes[i] := by
  induction bytes generalizing i with
  | nil => simp at hi
  | cons b rest ih =>
      have hb := b.toNat_lt
      simp only [List.length_cons] at hlen hi
      rw [← UInt8.toNat_inj, toNat_byteAt _ (by omega), toNat_joinBytes_cons b (by omega)]
      cases i with
      | zero =>
          rw [List.getElem_cons_zero]
          omega
      | succ i =>
          have hdiv : (b.toNat + 256 * (joinBytes rest).toNat) / 256 = (joinBytes rest).toNat := by omega
          rw [List.getElem_cons_succ, ← ih (by omega) (by omega), toNat_byteAt _ (by omega), Nat.mul_add, Nat.add_comm (8 * i),
            Nat.pow_add, ← Nat.div_div_eq_div_mul, hdiv]

/-- Bytes that were joined are the bytes of the word. -/
theorem Width.split_joinBytes {w : Width} {bytes : List UInt8} (h : bytes.length = w.bytes) :
    w.split (joinBytes bytes) = bytes := by
  have hfour : w.bytes ≤ 4 := by cases w <;> decide
  refine List.ext_getElem (by simp [Width.split, h]) fun i hi hi' => ?_
  simp only [Width.split, List.getElem_map, List.getElem_range]
  exact byteAt_joinBytes (h.le.trans hfour) hi'

/-- A width takes no notice of the bits that it leaves out. -/
theorem Width.split_and_mask (w : Width) (value : UInt32) : w.split (value &&& w.mask) = w.split value := by
  refine List.map_congr_left fun i hi => ?_
  have hi := List.mem_range.mp hi
  rw [← UInt8.toNat_inj]
  cases w with
  | w8 =>
      obtain rfl : i = 0 := Nat.lt_one_iff.mp hi
      rw [toNat_byteAt _ (by decide), toNat_byteAt _ (by decide), toNat_and_mask]
      simp only [Width.bits, Width.bytes]
      omega
  | w16 =>
      rw [toNat_byteAt _ (by simp only [Width.bytes] at hi; omega), toNat_byteAt _ (by simp only [Width.bytes] at hi; omega),
        toNat_and_mask]
      simp only [Width.bits, Width.bytes] at hi ⊢
      interval_cases i <;> omega
  | w32 =>
      rw [toNat_byteAt _ hi, toNat_byteAt _ hi, toNat_and_mask]
      exact congrArg (fun n => n / 2 ^ (8 * i) % 256) (Nat.mod_eq_of_lt value.toNat_lt)

end Recompiler
