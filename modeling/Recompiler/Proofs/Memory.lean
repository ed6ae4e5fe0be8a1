import Recompiler.Bus
import Recompiler.Proofs.Address

/-! Guest memory after a store. A store changes the bytes it is for, where RAM is, and nothing else. -/

namespace Recompiler

theorem data_set (store : ByteArray) (i : Nat) (b : UInt8) (h : i < store.size) :
    (store.set i b h).data = store.data.set i b h := by
  cases store
  rfl

/-- A store of bytes after some were overwritten. -/
theorem getElem?_overwrite (store : ByteArray) (index : Nat) (bytes : List UInt8) (j : Nat) :
    (overwrite store index bytes).data[j]? =
      if index ≤ j ∧ j < index + bytes.length ∧ j < store.size then bytes[j - index]? else store.data[j]? := by
  induction bytes generalizing store index with
  | nil =>
      rw [overwrite, if_neg]
      simp only [List.length_nil]
      omega
  | cons b rest ih =>
      rw [overwrite, ih]
      by_cases hi : index < store.size
      · have hsize : (store.set index b hi).size = store.size := by
          rw [ByteArray.size, data_set, Array.size_set, ← ByteArray.size]
        have hget : (store.set index b hi).data[j]? = if index = j then some b else store.data[j]? := by
          rw [data_set, Array.getElem?_set]
        rw [dif_pos hi, hsize, hget]
        by_cases hj : index = j
        · subst hj
          rw [if_neg (by omega), if_pos rfl, if_pos ⟨le_rfl, by simp, hi⟩, Nat.sub_self]
          rfl
        · rw [if_neg hj]
          by_cases hr : index + 1 ≤ j ∧ j < index + 1 + rest.length ∧ j < store.size
          · have hsub : j - index = j - (index + 1) + 1 := by omega
            rw [if_pos hr, if_pos ⟨by omega, by simp only [List.length_cons]; omega, hr.2.2⟩, hsub, List.getElem?_cons_succ]
          · rw [if_neg hr, if_neg]
            simp only [List.length_cons]
            omega
      · rw [dif_neg hi, if_neg (by omega), if_neg (by omega)]

theorem size_overwrite (store : ByteArray) (index : Nat) (bytes : List UInt8) :
    (overwrite store index bytes).size = store.size := by
  induction bytes generalizing store index with
  | nil => rfl
  | cons b rest ih =>
      rw [overwrite, ih]
      split
      · rw [ByteArray.size, data_set, Array.size_set, ← ByteArray.size]
      · rfl

/-- Memory without its RAM and the record of withdrawn monitors: what no store changes. -/
def Memory.frame (m : Memory) : Memory :=
  { m with ram := ByteArray.empty, released := #[] }

namespace Memory

variable (m : Memory) (p a : UInt32)

theorem byte_eq : m.byte a = m.ram.data[a.toNat]?.getD 0xFF := by
  unfold byte
  split
  · rename_i h
    rw [Array.getElem?_eq_getElem h, Option.getD_some]
    rfl
  · rename_i h
    rw [Array.getElem?_eq_none (Nat.le_of_not_lt h), Option.getD_none]

theorem byte_setByte (value : UInt8) :
    (m.setByte p value).byte a = if a = p ∧ p.toNat < m.ram.size then value else m.byte a := by
  rw [byte_eq, byte_eq, setByte, getElem?_overwrite]
  by_cases ha : a = p
  · subst ha
    by_cases hlt : a.toNat < m.ram.size
    · simp [hlt]
    · simp [hlt]
  · have hne : a.toNat ≠ p.toNat := fun h => ha (UInt32.toNat_inj.mp h)
    rw [if_neg (by simp only [List.length_cons, List.length_nil]; omega), if_neg fun h => ha h.1]

@[simp] theorem size_setByte (value : UInt8) : (m.setByte p value).ram.size = m.ram.size :=
  size_overwrite ..

theorem frame_setBytes (bytes : List UInt8) : (m.setBytes p bytes).frame = m.frame := by
  induction bytes generalizing m p with
  | nil => rfl
  | cons b rest ih => exact ih _ _

theorem size_setBytes (bytes : List UInt8) : (m.setBytes p bytes).ram.size = m.ram.size := by
  induction bytes generalizing m p with
  | nil => rfl
  | cons b rest ih =>
      rw [setBytes, ih, size_setByte]

theorem ram_setBytes_congr {m m' : Memory} (h : m'.ram = m.ram) (p : UInt32) (bytes : List UInt8) :
    (m'.setBytes p bytes).ram = (m.setBytes p bytes).ram := by
  induction bytes generalizing m m' p with
  | nil => exact h
  | cons b rest ih => exact ih (congrArg (fun ram => overwrite ram p.toNat [b]) h) (p + 1)

/-- Bytes outside the range of a store keep their values. -/
theorem byte_setBytes_of_ne (bytes : List UInt8) (h : ∀ i < bytes.length, a ≠ p + i.toUInt32) :
    (m.setBytes p bytes).byte a = m.byte a := by
  induction bytes generalizing m p with
  | nil => rfl
  | cons b rest ih =>
      have hzero : a ≠ p := by simpa using h 0 (by simp)
      rw [setBytes, ih, byte_setByte, if_neg fun h' => hzero h'.1]
      intro i hi ha
      refine h (i + 1) (by simpa using hi) ?_
      rw [ha, UInt32.add_assoc]
      congr 1
      simp [Nat.toUInt32, UInt32.ofNat_add, UInt32.add_comm]

theorem length_split (w : Width) (value : UInt32) : (w.split value).length = w.bytes := by
  simp [Width.split]

theorem byte_write_of_ne {w : Width} {value : UInt32} (h : ∀ i < w.bytes, a ≠ p + i.toUInt32) :
    (m.write p w value).byte a = m.byte a := by
  refine byte_setBytes_of_ne m p a _ ?_
  rwa [length_split]

/-- A store within one page changes bytes of that page only, in the range it is for. -/
theorem page_of_byte_write_ne {w : Width} {value : UInt32} (hfit : pageOffset p + w.bytes ≤ pageSize)
    (h : (m.write p w value).byte a ≠ m.byte a) :
    pageOf a = pageOf p ∧ pageOffset p ≤ pageOffset a ∧ pageOffset a < pageOffset p + w.bytes := by
  by_contra hout
  refine h (byte_write_of_ne m p a fun i hi ha => hout ?_)
  obtain ⟨hpage, hoffset⟩ := page_add p (n := i) (by omega)
  rw [ha, hpage, hoffset]
  exact ⟨rfl, by omega, by omega⟩

end Memory

/-- Where an address leads does not depend on what memory holds. -/
theorem Memory.resolve_eq_of_frame {mem mem' : Memory} (h : mem'.frame = mem.frame) (linear : UInt32) (write : Bool) :
    mem'.resolve linear write = mem.resolve linear write :=
  congrArg (fun m => m.resolve linear write) h

/-- Pages fault as a whole. -/
theorem Memory.exists_resolve_of_pageOf_eq {mem : Memory} {linear linear' paddr : UInt32} {write : Bool}
    (hpage : pageOf linear' = pageOf linear) (h : mem.resolve linear write = .ok paddr) :
    ∃ paddr', mem.resolve linear' write = .ok paddr' := by
  unfold resolve at h ⊢
  rw [hpage]
  dsimp only at h ⊢
  split at h
  · cases h
  · rename_i hpresent
    rw [if_neg hpresent]
    split at h
    · cases h
    · rename_i hwritable
      rw [if_neg hwritable]
      split <;> exact ⟨_, rfl⟩

/-- Remapping moves whole pages. -/
theorem Memory.pageOffset_of_resolve {mem : Memory} {linear paddr : UInt32} {write : Bool}
    (h : mem.resolve linear write = .ok paddr) : pageOffset paddr = pageOffset linear := by
  unfold resolve at h
  dsimp only at h
  split at h
  · cases h
  · split at h
    · cases h
    · split at h
      · rename_i phys _
        obtain rfl := Except.ok.inj h
        have hbase : pageBase phys &&& 0xFFF = 0 := by
          have hoffset : pageOffset (pageBase phys) = 0 := by
            rw [pageOffset_eq, toNat_pageBase]
            omega
          exact UInt32.toNat_inj.mp hoffset
        rw [pageOffset, pageOffset, UInt32.toNat_and, UInt32.toNat_or, Nat.and_or_distrib_right, ← UInt32.toNat_and,
          ← UInt32.toNat_and, hbase, UInt32.and_assoc, UInt32.and_self]
        exact Nat.zero_or _
      · exact congrArg pageOffset (Except.ok.inj h).symm

end Recompiler
