import Mathlib
import Recompiler.Guest.Memory

/-! Addresses as numbers: an address is a page number and an offset, and walking on from an address stays on its page
until the offset reaches the page size. -/

namespace Recompiler

variable (a b p : UInt32)

theorem toNat_pageOf : (pageOf a).toNat = a.toNat / 4096 := by
  simp [pageOf, UInt32.toNat_shiftRight, Nat.shiftRight_eq_div_pow]

theorem pageOffset_eq : pageOffset a = a.toNat % 4096 := by
  have hmask : (0xFFF : UInt32).toNat = 2 ^ 12 - 1 := rfl
  rw [pageOffset, UInt32.toNat_and, hmask, Nat.and_two_pow_sub_one_eq_mod]

theorem toNat_pageBase : (pageBase p).toNat = p.toNat * 4096 % 4294967296 := by
  simp [pageBase, UInt32.toNat_shiftLeft, Nat.shiftLeft_eq]

theorem pageOffset_lt : pageOffset a < pageSize := by
  rw [pageOffset_eq, pageSize]
  exact Nat.mod_lt _ (by decide)

theorem toNat_pageOf_lt : (pageOf a).toNat < 2 ^ 20 := by
  have := a.toNat_lt
  rw [toNat_pageOf]
  omega

theorem pageOf_eq_iff : pageOf a = pageOf b ↔ a.toNat / 4096 = b.toNat / 4096 := by
  rw [← UInt32.toNat_inj, toNat_pageOf, toNat_pageOf]

/-- An address is its page and its offset. -/
theorem eq_of_page_offset {a b : UInt32} (hpage : pageOf a = pageOf b) (hoffset : pageOffset a = pageOffset b) :
    a = b := by
  rw [pageOf_eq_iff] at hpage
  rw [pageOffset_eq, pageOffset_eq] at hoffset
  exact UInt32.toNat_inj.mp (by omega)

theorem pageOf_pageBase (hp : p.toNat < 2 ^ 20) : pageOf (pageBase p) = p := by
  rw [← UInt32.toNat_inj, toNat_pageOf, toNat_pageBase]
  omega

theorem toNat_ofNat_toUInt32 {n : Nat} (h : n < 4294967296) : n.toUInt32.toNat = n := by
  rw [Nat.toUInt32, UInt32.toNat_ofNat']
  exact Nat.mod_eq_of_lt h

/-- Walking on within a page. -/
theorem page_add {n : Nat} (h : pageOffset a + n < pageSize) :
    pageOf (a + n.toUInt32) = pageOf a ∧ pageOffset (a + n.toUInt32) = pageOffset a + n := by
  have hlt := a.toNat_lt
  rw [pageOffset_eq, pageSize] at h
  have hsum : (a + n.toUInt32).toNat = a.toNat + n := by
    rw [UInt32.toNat_add, toNat_ofNat_toUInt32 (by omega)]
    omega
  rw [pageOf_eq_iff, pageOffset_eq, pageOffset_eq, hsum]
  omega

/-- Walking on by less than a page ends on the same page only if it stays on it. -/
theorem fits_of_pageOf_eq {n : Nat} (hn : n < pageSize) (h : pageOf a = pageOf (a + n.toUInt32)) : pageOffset a + n < pageSize := by
  have hlt := a.toNat_lt
  rw [pageSize] at hn ⊢
  rw [pageOf_eq_iff, UInt32.toNat_add, toNat_ofNat_toUInt32 (by omega)] at h
  rw [pageOffset_eq]
  omega

/-- The byte of a page at an offset. -/
theorem pageBase_add {offset : Nat} (hp : p.toNat < 2 ^ 20) (h : offset < pageSize) :
    pageOf (pageBase p + offset.toUInt32) = p ∧ pageOffset (pageBase p + offset.toUInt32) = offset := by
  have hbase : pageOffset (pageBase p) = 0 := by
    rw [pageOffset_eq, toNat_pageBase]
    omega
  have hadd := page_add (pageBase p) (n := offset) (by rwa [hbase, Nat.zero_add])
  rwa [pageOf_pageBase p hp, hbase, Nat.zero_add] at hadd

end Recompiler
