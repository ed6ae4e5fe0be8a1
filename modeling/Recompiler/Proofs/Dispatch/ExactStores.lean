import Recompiler.Proofs.Dispatch.CheckedStores
import Recompiler.Proofs.Dispatch.Unwatched

/-! Stores through the bus are exact. Where linear pages are the physical ones, a store faults if a byte it is for is on a
page that is not present, and has then changed nothing; otherwise it gives these bytes their values, except on read-only
memory and outside RAM. What the cache holds makes no difference, nor does storing byte by byte. -/

namespace Recompiler

theorem toNat_sub_ne_zero {a b : UInt32} (h : a ≠ b) : (a - b).toNat ≠ 0 := by
  intro hzero
  have hsub : a - b = 0 := UInt32.toNat_inj.mp hzero
  exact h (by grind)

namespace Memory

variable {mem mem' : Memory} {linear a : UInt32} {w : Width} {value : UInt32}

/-- Linear pages are the physical pages, and all can be written. -/
structure Flat (mem : Memory) : Prop where
  mapped : mem.mapped = []
  readOnly : mem.readOnly = []

/-- Whether the linear page of an address is present. -/
def present (mem : Memory) (linear : UInt32) : Bool :=
  mem.pagedIn.contains (pageOf linear) || !mem.absent.contains (pageOf linear)

/-- Whether a store can change the byte at an address: it is in RAM, and its page is not read-only memory. -/
def takes (mem : Memory) (a : UInt32) : Bool :=
  decide (a.toNat < mem.ram.size) && !PageFlag.has (mem.pageFlags (pageOf a)) PageFlag.rom

theorem Flat.resolve (h : mem.Flat) (write : Bool) (hpresent : mem.present linear = true) :
    mem.resolve linear write = .ok linear := by
  have hthere : ¬(!mem.pagedIn.contains (pageOf linear) && mem.absent.contains (pageOf linear)) = true := by
    unfold present at hpresent
    intro hgone
    rw [Bool.and_eq_true, Bool.not_eq_true'] at hgone
    rw [hgone.1, hgone.2] at hpresent
    cases hpresent
  unfold Memory.resolve
  dsimp only
  rw [if_neg hthere, h.readOnly, h.mapped, if_neg (by simp)]
  rfl

theorem resolve_absent (write : Bool) (hpresent : mem.present linear = false) :
    mem.resolve linear write = .error ⟨linear, if write then 2 else 0⟩ := by
  unfold present at hpresent
  rw [Bool.or_eq_false_iff, Bool.not_eq_false'] at hpresent
  unfold Memory.resolve
  dsimp only
  rw [if_pos (by rw [hpresent.1, hpresent.2]; rfl)]

theorem present_congr {a b : UInt32} (h : pageOf a = pageOf b) : mem.present a = mem.present b := by
  unfold present
  rw [h]

theorem Flat.of_frame (h : mem.Flat) (hmem : mem'.frame = mem.frame) : mem'.Flat :=
  ⟨(congrArg Memory.mapped hmem).trans h.mapped, (congrArg Memory.readOnly hmem).trans h.readOnly⟩

theorem present_of_frame (hmem : mem'.frame = mem.frame) (a : UInt32) : mem'.present a = mem.present a :=
  congrArg (fun m => m.present a) hmem

/-- Memory after the store of bytes. The address may wrap around. -/
structure Stored (mem : Memory) (linear : UInt32) (bytes : List UInt8) (mem' : Memory) : Prop where
  frame : mem'.frame = mem.frame
  size : mem'.ram.size = mem.ram.size
  byte : ∀ a, mem'.byte a = if mem.takes a = true then bytes.getD (a - linear).toNat (mem.byte a) else mem.byte a

theorem Stored.takes_eq {bytes : List UInt8} (h : Stored mem linear bytes mem') : mem'.takes = mem.takes := by
  funext a
  have hflags : mem'.pageFlags (pageOf a) = mem.pageFlags (pageOf a) := congrArg (fun m => m.pageFlags (pageOf a)) h.frame
  unfold takes
  rw [h.size, hflags]

theorem write_byte (mem : Memory) (linear : UInt32) (b : UInt8) : mem.write linear .w8 b.toUInt32 = mem.setByte linear b := by
  have hsplit : Width.w8.split b.toUInt32 = [b] := by simp [Width.split, Width.bytes, byteAt]
  rw [write, hsplit]
  rfl

/-- A byte is stored. -/
theorem stored_singleton (mem : Memory) (linear : UInt32) (b : UInt8) :
    Stored mem linear [b] (mem.writeUnlessRom linear .w8 b.toUInt32) := by
  unfold writeUnlessRom
  rw [write_byte]
  split
  · rename_i hrom
    refine ⟨rfl, rfl, fun a => ?_⟩
    by_cases ha : a = linear
    · rw [if_neg (by simp [takes, ha, hrom])]
    · have hoffset := toNat_sub_ne_zero ha
      rw [List.getD_eq_default _ _ (by simp only [List.length_singleton]; omega), ite_self]
  · rename_i hrom
    refine ⟨rfl, size_setByte .., fun a => ?_⟩
    rw [byte_setByte]
    by_cases ha : a = linear
    · subst ha
      simp [takes, hrom]
    · have hoffset := toNat_sub_ne_zero ha
      rw [if_neg fun h => ha h.1, List.getD_eq_default _ _ (by simp only [List.length_singleton]; omega), ite_self]

/-- A byte is stored, and then those after it. -/
theorem Stored.cons {b : UInt8} {rest : List UInt8} {mem'' : Memory} (h : Stored mem linear [b] mem')
    (h' : Stored mem' (linear + 1) rest mem'') (hlen : rest.length < 2 ^ 32 - 1) : Stored mem linear (b :: rest) mem'' := by
  refine ⟨h'.frame.trans h.frame, h'.size.trans h.size, fun a => ?_⟩
  rw [h'.byte, h.takes_eq, h.byte]
  split
  · by_cases ha : a = linear
    · subst ha
      have hlast : (a - (a + 1)).toNat = 2 ^ 32 - 1 := by
        have : a - (a + 1) = -1 := by grind
        rw [this]
        decide
      have hzero : (a - a).toNat = 0 := by simp
      rw [hlast, hzero, List.getD_eq_default _ _ (by omega)]
      rfl
    · have hnext : (a - linear).toNat = (a - (linear + 1)).toNat + 1 := by
        have hsub : a - (linear + 1) = a - linear - 1 := by grind
        have hone : (1 : UInt32) ≤ a - linear := Nat.one_le_iff_ne_zero.mpr (toNat_sub_ne_zero ha)
        rw [hsub, UInt32.toNat_sub_of_le _ _ hone]
        exact (Nat.sub_add_cancel hone).symm
      rw [hnext, List.getD_cons_succ, List.getD_cons_succ, List.getD_nil]
  · rfl

/-- Bytes on pages that are present are fetched one by one. -/
theorem Flat.fetchBytes (h : mem.Flat) {n : Nat} (hpresent : ∀ i < n, mem.present (linear + i.toUInt32) = true) :
    mem.fetchBytes linear n = .ok ((List.range n).map fun i => mem.byte (linear + i.toUInt32)) := by
  induction n generalizing linear with
  | zero => rfl
  | succ n ih =>
      have hfirst : mem.present linear = true := by simpa using hpresent 0 (Nat.succ_pos _)
      have hshift (i : Nat) : linear + 1 + i.toUInt32 = linear + (i + 1).toUInt32 := by
        rw [Nat.add_comm, Scan.add_toUInt32]
        rfl
      have hpresent' : ∀ i < n, mem.present (linear + 1 + i.toUInt32) = true := fun i hi => by
        rw [hshift]
        exact hpresent (i + 1) (Nat.succ_lt_succ hi)
      have hrest := ih hpresent'
      have hzero : linear + (0 : Nat).toUInt32 = linear := by simp
      simp only [hshift] at hrest
      rw [Memory.fetchBytes, h.resolve false hfirst, hrest, List.range_succ_eq_map, List.map_cons, List.map_map, hzero]
      rfl

/-- An access within a page is on one page. -/
theorem pageOf_add_of_fits (hfit : fitsInPage linear w = true) {i : Nat} (hi : i < w.bytes) :
    pageOf (linear + i.toUInt32) = pageOf linear := by
  have hle : pageOffset linear + w.bytes ≤ pageSize := by simpa [fitsInPage] using hfit
  exact (page_add linear (by omega)).1

/-- A load is one of single bytes. -/
theorem Flat.loadLinear_eq (h : mem.Flat) (linear : UInt32) (w : Width) :
    mem.loadLinear linear w = mem.loadBytewise linear w := by
  unfold Memory.loadLinear
  split
  · rename_i hfit
    cases hpresent : mem.present linear with
    | true =>
        rw [Memory.loadBytewise, h.fetchBytes fun i hi => (present_congr (pageOf_add_of_fits hfit hi)).trans hpresent,
          h.resolve false hpresent]
        rfl
    | false =>
        obtain ⟨n, hn⟩ := Nat.exists_eq_succ_of_ne_zero (show w.bytes ≠ 0 by cases w <;> decide)
        rw [Memory.loadBytewise, hn, Memory.fetchBytes, resolve_absent false hpresent]
        rfl
  · rfl

theorem getD_split (w : Width) (value : UInt32) (n : Nat) (b : UInt8) :
    (w.split value).getD n b = if n < w.bytes then byteAt value n else b := by
  split
  · rename_i hn
    simp [Width.split, List.getD_eq_getElem?_getD, hn]
  · rename_i hn
    exact List.getD_eq_default _ _ (by rw [length_split]; omega)

end Memory

namespace Bus

open BlockEnv Cache

variable {mem : Memory} {linear : UInt32} {w : Width} {value : UInt32}

/-- Bytes on pages that are present are stored one by one. -/
theorem stored_storeBytes (hflat : mem.Flat) {bytes : List UInt8} (hlen : bytes.length < 2 ^ 32)
    (h : ∀ i < bytes.length, mem.present (linear + i.toUInt32) = true) :
    ∃ mem', (⟨mem, ()⟩ : Bus Unit).storeBytes linear bytes = (none, ⟨mem', ()⟩) ∧ mem.Stored linear bytes mem' := by
  induction bytes generalizing mem linear with
  | nil => exact ⟨mem, rfl, rfl, rfl, fun a => by rw [List.getD_nil, ite_self]⟩
  | cons b rest ih =>
      have hfirst : mem.present linear = true := by simpa using h 0 (Nat.succ_pos _)
      have hbyte := mem.stored_singleton linear b
      have hrest : ∀ i < rest.length, (mem.writeUnlessRom linear .w8 b.toUInt32).present (linear + 1 + i.toUInt32) = true :=
        fun i hi => by
          have hnext := h (i + 1) (Nat.succ_lt_succ hi)
          rw [Nat.add_comm, Scan.add_toUInt32] at hnext
          rw [Memory.present_of_frame hbyte.frame]
          exact hnext
      obtain ⟨mem', hstore, hstored⟩ := ih (hflat.of_frame hbyte.frame) (by simp at hlen; omega) hrest
      refine ⟨mem', ?_, hbyte.cons hstored (by simp at hlen; omega)⟩
      rw [storeBytes, hflat.resolve true hfirst]
      exact hstore

/-- Bytes of one page are stored together. -/
theorem storeBytes_of_page (hflat : mem.Flat) {page : UInt32} (hpresent : ∀ a, pageOf a = page → mem.present a = true)
    {bytes : List UInt8} (h : ∀ i < bytes.length, pageOf (linear + i.toUInt32) = page) :
    (⟨mem, ()⟩ : Bus Unit).storeBytes linear bytes =
      (none, ⟨if PageFlag.has (mem.pageFlags page) PageFlag.rom then mem else mem.setBytes linear bytes, ()⟩) := by
  induction bytes generalizing mem linear with
  | nil => rw [Memory.setBytes, ite_self, storeBytes]
  | cons b rest ih =>
      have hpage : pageOf linear = page := by simpa using h 0 (Nat.succ_pos _)
      have hframe := (mem.stored_singleton linear b).frame
      have hpages : ∀ i < rest.length, pageOf (linear + 1 + i.toUInt32) = page := fun i hi => by
        have hnext := h (i + 1) (Nat.succ_lt_succ hi)
        rw [Nat.add_comm, Scan.add_toUInt32] at hnext
        exact hnext
      have hrest := ih (hflat.of_frame hframe) (fun a ha => (Memory.present_of_frame hframe a).trans (hpresent a ha)) hpages
      rw [storeBytes, hflat.resolve true (hpresent linear hpage)]
      refine hrest.trans ?_
      have hflags : (mem.writeUnlessRom linear .w8 b.toUInt32).pageFlags page = mem.pageFlags page :=
        congrArg (fun m => m.pageFlags page) hframe
      rw [hflags, Memory.writeUnlessRom, hpage]
      split
      · rfl
      · rw [Memory.write_byte]
        rfl

/-- A store for which all pages are present is one of single bytes. -/
theorem write_eq_writeBytewise (hflat : mem.Flat) (h : ∀ i < w.bytes, mem.present (linear + i.toUInt32) = true) :
    (⟨mem, ()⟩ : Bus Unit).write linear w value = (⟨mem, ()⟩ : Bus Unit).writeBytewise linear w value := by
  have hw : 0 < w.bytes := by cases w <;> decide
  have hfirst : mem.present linear = true := by simpa using h 0 hw
  unfold write
  split
  · rename_i hfit
    have hpage : ∀ a, pageOf a = pageOf linear → mem.present a = true := fun a ha => (Memory.present_congr ha).trans hfirst
    rw [writeBytewise, storeBytes_of_page hflat hpage (fun i hi => Memory.pageOf_add_of_fits hfit
      (by rwa [Memory.length_split] at hi)), hflat.resolve true hfirst]
    rfl
  · rw [hflat.resolve true hfirst, hflat.resolve true (h (w.bytes - 1) (by omega))]

/-- A store for which a page is missing changes nothing. -/
theorem write_of_absent {κ : Type} [Watcher κ] {b : Bus κ} {i : Nat} (hflat : b.mem.Flat) (hi : i < w.bytes)
    (h : b.mem.present (linear + i.toUInt32) = false) : ∃ fault, b.write linear w value = (some fault, b) := by
  unfold write
  split
  · rename_i hfit
    rw [Memory.present_congr (Memory.pageOf_add_of_fits hfit hi)] at h
    rw [Memory.resolve_absent true h]
    exact ⟨_, rfl⟩
  · cases hfirst : b.mem.present linear with
    | false =>
        rw [Memory.resolve_absent true hfirst]
        exact ⟨_, rfl⟩
    | true =>
        have hlast : b.mem.present (linear + (w.bytes - 1).toUInt32) = false := by
          rcases pageOf_add_cases linear (i := i) (n := w.bytes - 1) (by omega) (by cases w <;> decide) with hpage | hpage
          · rw [Memory.present_congr hpage, hfirst] at h
            cases h
          · rwa [Memory.present_congr hpage] at h
        rw [hflat.resolve true hfirst, Memory.resolve_absent true hlast]
        exact ⟨_, rfl⟩

/-- A store through the bus faults if a page that it touches is not present, and has then changed neither memory nor cache.
Otherwise the touched bytes of RAM outside of read-only memory are those of the value, and all others are as before. Without
a cache, or byte by byte, it is the same; and a load is one of single bytes. -/
theorem write_exact {b : Bus Cache} (hb : b.Settled) (hflat : b.mem.Flat) (linear : UInt32) (w : Width) (value : UInt32) :
    ((b.write linear w value).1.isSome = true ↔ ∃ i < w.bytes, b.mem.present (linear + i.toUInt32) = false) ∧
      ((b.write linear w value).1.isSome = true → (b.write linear w value).2 = b) ∧
      ((b.write linear w value).1 = none →
        (b.write linear w value).2.mem.frame = b.mem.frame ∧
          (b.write linear w value).2.mem.ram.size = b.mem.ram.size ∧
          (∀ a, (b.write linear w value).2.mem.byte a =
            if b.mem.takes a = true ∧ (a - linear).toNat < w.bytes then byteAt value (a - linear).toNat else b.mem.byte a) ∧
          (b.writeBytewise linear w value).1 = none ∧
          (b.writeBytewise linear w value).2.mem.unreleased = (b.write linear w value).2.mem.unreleased) ∧
      (∀ plain : Bus Unit, plain.mem = b.mem →
        (plain.write linear w value).1 = (b.write linear w value).1 ∧
          (plain.write linear w value).2.mem.unreleased = (b.write linear w value).2.mem.unreleased ∧
          ((plain.write linear w value).1 = none → plain.writeBytewise linear w value = plain.write linear w value)) ∧
      b.mem.loadLinear linear w = b.mem.loadBytewise linear w := by
  by_cases hall : ∀ i < w.bytes, b.mem.present (linear + i.toUInt32) = true
  · have hlen : (w.split value).length = w.bytes := Memory.length_split ..
    have hpresent : ∀ i < (w.split value).length, b.mem.present (linear + i.toUInt32) = true := by rwa [hlen]
    obtain ⟨mem', hplain, hstored⟩ := stored_storeBytes hflat (by rw [hlen]; cases w <;> decide) hpresent
    have hwrite : (⟨b.mem, ()⟩ : Bus Unit).write linear w value = (none, ⟨mem', ()⟩) :=
      (write_eq_writeBytewise hflat hall).trans hplain
    obtain ⟨hresult, hmem⟩ : none = (b.write linear w value).1 ∧ mem'.unreleased = (b.write linear w value).2.mem.unreleased := by
      have hsame := @unreleased_write b ⟨b.mem, ()⟩ linear value w hb rfl
      rwa [hwrite] at hsame
    obtain ⟨hresult', hmem'⟩ : none = (b.writeBytewise linear w value).1 ∧
        mem'.unreleased = (b.writeBytewise linear w value).2.mem.unreleased := by
      have hsame := @unreleased_storeBytes b ⟨b.mem, ()⟩ linear hb rfl (w.split value)
      rwa [hplain] at hsame
    have hnone : ¬(b.write linear w value).1.isSome = true := by simp [← hresult]
    refine ⟨⟨fun h => absurd h hnone, fun ⟨i, hi, habsent⟩ => ?_⟩, fun h => absurd h hnone, fun _ => ⟨?_, ?_, fun a => ?_, ?_, ?_⟩,
      fun plain hplainMem => ?_, hflat.loadLinear_eq linear w⟩
    · rw [hall i hi] at habsent
      cases habsent
    · exact (Cache.Labelled.frame_eq_of_unreleased hmem.symm).trans hstored.frame
    · rw [← Memory.ram_eq_of_unreleased hmem]
      exact hstored.size
    · rw [← Memory.byte_eq_of_unreleased hmem, hstored.byte, Memory.getD_split, ite_and]
    · exact hresult'.symm
    · exact hmem'.symm.trans hmem
    · obtain ⟨mem, ⟨⟩⟩ := plain
      cases hplainMem
      exact ⟨hwrite ▸ hresult, hwrite ▸ hmem, fun _ => (write_eq_writeBytewise hflat hall).symm⟩
  · obtain ⟨i, hi, habsent⟩ : ∃ i < w.bytes, b.mem.present (linear + i.toUInt32) = false := by simpa using hall
    obtain ⟨fault, hwrite⟩ : ∃ fault, b.write linear w value = (some fault, b) := write_of_absent hflat hi habsent
    rw [hwrite]
    refine ⟨⟨fun _ => ⟨i, hi, habsent⟩, fun _ => rfl⟩, fun _ => rfl, fun h => (by cases h), fun plain hmem => ?_,
      hflat.loadLinear_eq linear w⟩
    have hsame := @unreleased_write b plain linear value w hb (congrArg _ hmem)
    rw [hwrite] at hsame
    refine ⟨hsame.1, hsame.2, fun h => ?_⟩
    rw [hsame.1] at h
    cases h

/-- A store from a page without code into one with a block, across the page end. -/
theorem write_exact_into_block :
    ∃ b : Bus Cache, b.Settled ∧ b.mem.Flat ∧ (b.watch.block 0).live = true ∧ b.watch.monitorOf 1 = some 0 ∧
      (b.write 0xFFF .w32 0x04030201).1 = none ∧ (b.write 0xFFF .w32 0x04030201).2.mem.byte 0xFFF = 1 ∧
      (b.write 0xFFF .w32 0x04030201).2.mem.byte 0x1002 = 4 ∧
      (b.write 0xFFF .w32 0x04030201).2.mem.byte 0x1003 = b.mem.byte 0x1003 := by
  obtain ⟨mem, c, -, -, hmem, hsound, hlive, ⟨hinst, hpage, hflags⟩, hidle, hsize, -, -⟩ := exists_compiled_storeLoop
  have hpageFlags : mem.pageFlags 1 = PageFlag.ram := (Memory.pageFlags_eq_of_unreleased hmem 1).trans rfl
  have hb : (⟨mem, c⟩ : Bus Cache).Settled := by
    refine ⟨hsound, fun n hn => ?_⟩
    have hzero : n = 0 := by
      match n, hn with
      | 0, _ => rfl
      | 1, hn => exact absurd (hidle.symm.trans hn) (by decide)
      | n + 2, hn =>
          have hout : c.monitors.size ≤ n + 2 := by omega
          exact absurd (lt_size_of_installed hn) (Nat.not_lt.mpr hout)
    rw [hzero, hflags, hpage, hpageFlags]
  have hflat : mem.Flat := ⟨congrArg Memory.mapped hmem, congrArg Memory.readOnly hmem⟩
  obtain ⟨hfault, -, hstored, -, -⟩ := write_exact hb hflat 0xFFF .w32 0x04030201
  have hpresent (a : UInt32) : mem.present a = true := congrArg (fun m => m.present a) hmem
  have hnone : ((⟨mem, c⟩ : Bus Cache).write 0xFFF .w32 0x04030201).1 = none := by
    rw [← Option.not_isSome_iff_eq_none, hfault]
    rintro ⟨i, -, habsent⟩
    rw [hpresent] at habsent
    cases habsent
  obtain ⟨-, -, hbyte, -, -⟩ := hstored hnone
  have htakes (a : UInt32) (ha : a.toNat < 8192) (hram : PageFlag.has (storeLoop.pageFlags (pageOf a)) PageFlag.rom = false) :
      mem.takes a = true := by
    have hsize : mem.ram.size = 8192 := (congrArg ByteArray.size (Memory.ram_eq_of_unreleased hmem)).trans byte_storeLoop.2.2
    rw [Memory.takes, hsize, Memory.pageFlags_eq_of_unreleased hmem, hram, decide_eq_true ha]
    rfl
  refine ⟨⟨mem, c⟩, hb, hflat, hlive, (hsound.watches.byPage 1 0).mpr ⟨hinst, hpage⟩, hnone, ?_, ?_, ?_⟩
  · rw [hbyte, if_pos ⟨htakes _ (by decide) (by decide), by decide⟩]
    decide
  · rw [hbyte, if_pos ⟨htakes _ (by decide) (by decide), by decide⟩]
    decide
  · rw [hbyte, if_neg fun h => absurd h.2 (by decide)]

end Bus
end Recompiler
