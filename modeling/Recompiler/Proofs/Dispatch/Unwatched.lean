import Recompiler.Proofs.Compile.Phases
import Recompiler.Proofs.Dispatch.Visited
import Recompiler.Proofs.Guest.Bytes

/-! Watched memory and plain memory. As long as pages keep the attributes that they had when their monitors were put on
them, a store through the cache does to memory what a store without one does. -/

namespace Recompiler

/-! ### Memory apart from its record of withdrawn monitors -/

namespace Memory

variable {mem mem' : Memory}

theorem unreleased_setBytes (mem : Memory) (p : UInt32) (bytes : List UInt8) :
    (mem.setBytes p bytes).unreleased = mem.unreleased.setBytes p bytes := by
  induction bytes generalizing mem p with
  | nil => rfl
  | cons b rest ih => exact ih _ _

theorem unreleased_write (mem : Memory) (p : UInt32) (w : Width) (value : UInt32) :
    (mem.write p w value).unreleased = mem.unreleased.write p w value :=
  unreleased_setBytes ..

theorem unreleased_writeUnlessRom (mem : Memory) (p : UInt32) (w : Width) (value : UInt32) :
    (mem.writeUnlessRom p w value).unreleased = mem.unreleased.writeUnlessRom p w value := by
  have hflags : mem.unreleased.pageFlags (pageOf p) = mem.pageFlags (pageOf p) := rfl
  unfold writeUnlessRom
  rw [hflags]
  split
  · rfl
  · exact unreleased_write ..

/-- Storing the byte that is there. -/
theorem setByte_self {p : UInt32} {b : UInt8} (h : mem.byte p = b) : mem.setByte p b = mem := by
  have hram : overwrite mem.ram p.toNat [b] = mem.ram := by
    refine ByteArray.ext (Array.ext_getElem? fun j => ?_)
    rw [getElem?_overwrite]
    split
    · rename_i hj
      obtain rfl : j = p.toNat := by
        have := hj.2.1
        simp only [List.length_singleton] at this
        omega
      rw [byte_eq, Array.getElem?_eq_getElem hj.2.2, Option.getD_some] at h
      rw [Nat.sub_self, Array.getElem?_eq_getElem hj.2.2, h]
      rfl
    · rfl
  rw [setByte, hram]

/-- Storing the bytes that are there. -/
theorem setBytes_self (mem : Memory) (p : UInt32) (n : Nat) :
    mem.setBytes p ((List.range n).map fun i => mem.byte (p + i.toUInt32)) = mem := by
  induction n generalizing p with
  | zero => rfl
  | succ n ih =>
      have hzero : p + (0 : Nat).toUInt32 = p := by simp
      have hnext : ((fun i : Nat => mem.byte (p + i.toUInt32)) ∘ Nat.succ) = fun i => mem.byte (p + 1 + i.toUInt32) := by
        funext i
        rw [Function.comp_apply, Nat.succ_eq_one_add, Scan.add_toUInt32]
        rfl
      rw [List.range_succ_eq_map, List.map_cons, List.map_map, hzero, hnext, setBytes, setByte_self rfl, ih]

/-- A store that changes nothing is none. -/
theorem write_self {p : UInt32} {w : Width} {value : UInt32} (h : mem.read p w = value &&& w.mask) :
    mem.write p w value = mem := by
  have hbytes : w.split value = (List.range w.bytes).map fun i => mem.byte (p + i.toUInt32) := by
    rw [← w.split_and_mask, ← h]
    exact Width.split_joinBytes (by simp)
  rw [write, hbytes, setBytes_self]

end Memory

/-! ### Pages and their monitors -/

namespace Cache

variable {c c' c'' : Cache} {m n : MonitorId} {mem mem' : Memory}

/-- Monitors stay on their pages or leave them. -/
def Vacates (c c' : Cache) : Prop :=
  ∀ n, (c'.monitor n).installed = true →
    (c.monitor n).installed = true ∧ (c'.monitor n).station = (c.monitor n).station

namespace Vacates

end Vacates

/-- Every monitor knows the attributes of its page. -/
def Marked (mem : Memory) (c : Cache) : Prop :=
  ∀ n, (c.monitor n).installed = true → (c.monitor n).flags = mem.pageFlags (c.monitor n).page

theorem Marked.vacate (h : Marked mem c) (hc : Vacates c c') (hmem : mem'.frame = mem.frame) : Marked mem' c' := by
  intro n hn
  obtain ⟨hn, hstation⟩ := hc n hn
  have hpage : (c'.monitor n).page = (c.monitor n).page := congrArg Prod.fst hstation
  have hflags : (c'.monitor n).flags = (c.monitor n).flags := congrArg (fun s => s.2.1) hstation
  have hpageFlags : mem'.pageFlags (c.monitor n).page = mem.pageFlags (c.monitor n).page :=
    congrArg (fun mem => mem.pageFlags (c.monitor n).page) hmem
  rw [hpage, hflags, hpageFlags]
  exact h n hn

namespace Labelled

theorem frame_eq_of_unreleased (h : mem'.unreleased = mem.unreleased) : mem'.frame = mem.frame :=
  congrArg (fun mem => mem.frame) h

end Labelled

end Cache

/-! ### Stores -/

/-- Pages keep the attributes they have when they are watched. -/
structure Bus.Settled (b : Bus Cache) : Prop where
  sound : b.watch.Sound
  marked : Cache.Marked b.mem b.watch

namespace Cache

variable {c : Cache} {mem : Memory}

/-- A store under the eyes of the monitors does to memory what a plain one does. -/
theorem write_unreleased (h : c.Sound) (hl : Marked mem c) (paddr : UInt32) (w : Width) (value : UInt32) :
    (c.write mem paddr w value).1.unreleased = (mem.writeUnlessRom paddr w value).unreleased := by
  unfold Cache.write
  split
  · rfl
  · rename_i m hm
    obtain ⟨hinstalled, hpage⟩ := (h.watches.byPage _ m).mp hm
    have hflags : (c.monitor m).flags = mem.pageFlags (pageOf paddr) := by rw [hl m hinstalled, hpage]
    rw [hflags, Memory.writeUnlessRom]
    split
    · rfl
    · split
      · rename_i hsame
        rw [Memory.write_self hsame]
      · dsimp only
        unfold reportRelease
        split <;> rfl

end Cache

namespace Bus

variable {b : Bus Cache} {b' : Bus Unit} {linear paddr value : UInt32} {w : Width}

theorem Settled.saved (h : b.Settled) {mem : Memory} {c : Cache} (hs : Cache.Saved b.mem b.watch mem c) : Settled ⟨mem, c⟩ :=
  ⟨hs.sound, h.marked.vacate hs.station hs.frame⟩

theorem Settled.store (h : b.Settled) (hfit : pageOffset paddr + w.bytes ≤ pageSize) : (b.store paddr w value).Settled :=
  h.saved (saved_store h.sound hfit)

theorem unreleased_store (h : b.Settled) (hmem : b'.mem.unreleased = b.mem.unreleased) :
    (b'.store paddr w value).mem.unreleased = (b.store paddr w value).mem.unreleased := by
  have hplain : (b'.store paddr w value).mem = b'.mem.writeUnlessRom paddr w value := rfl
  have hwatched : (b.store paddr w value).mem = (b.watch.write b.mem paddr w value).1 := rfl
  rw [hplain, hwatched, Cache.write_unreleased h.sound h.marked, Memory.unreleased_writeUnlessRom, hmem,
    ← Memory.unreleased_writeUnlessRom]

theorem unreleased_storeBytes (h : b.Settled) (hmem : b'.mem.unreleased = b.mem.unreleased) (bytes : List UInt8) :
    (b'.storeBytes linear bytes).1 = (b.storeBytes linear bytes).1 ∧
      (b'.storeBytes linear bytes).2.mem.unreleased = (b.storeBytes linear bytes).2.mem.unreleased := by
  induction bytes generalizing b b' linear with
  | nil => exact ⟨rfl, hmem⟩
  | cons x rest ih =>
      rw [storeBytes, storeBytes, Memory.resolve_eq_of_unreleased hmem]
      split
      · exact ⟨rfl, hmem⟩
      · rename_i paddr hpaddr
        exact ih (h.store (w := .w8) (pageOffset_lt paddr)) (unreleased_store h hmem)

/-- A store to a linear address faults on both buses or on neither, and does the same to memory. -/
theorem unreleased_write (h : b.Settled) (hmem : b'.mem.unreleased = b.mem.unreleased) :
    (b'.write linear w value).1 = (b.write linear w value).1 ∧
      (b'.write linear w value).2.mem.unreleased = (b.write linear w value).2.mem.unreleased := by
  unfold write
  simp only [Memory.resolve_eq_of_unreleased hmem]
  split
  · split
    · exact ⟨rfl, hmem⟩
    · exact ⟨rfl, unreleased_store h hmem⟩
  · split
    · exact ⟨rfl, hmem⟩
    · exact ⟨rfl, hmem⟩
    · exact unreleased_storeBytes h hmem _

end Bus
end Recompiler
