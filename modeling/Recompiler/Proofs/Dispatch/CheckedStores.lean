import Recompiler.Proofs.Dispatch.WriteMaps

/-! Stores of a running block against plain ones. A store that does not hit the running block is the plain store, with
the same memory and the same cache. One that does is given up at the byte that hits: within a page nothing has been
stored by then, across two pages the bytes before it have. -/

namespace Recompiler

namespace Cache

variable {c : Cache} {mem : Memory} {paddr value : UInt32} {w : Width}

/-- Which blocks an invalidation clears does not depend on the block that is running. -/
theorem invalidateBlocks_snd (first last : Nat) (running : Option BlockId) (ids : List BlockId) (hit hit' : Bool) (c : Cache) :
    (invalidateBlocks first last running ids (hit, c)).2 = (invalidateBlocks first last none ids (hit', c)).2 := by
  unfold invalidateBlocks
  induction ids generalizing hit hit' c with
  | nil => rfl
  | cons id rest ih =>
      rw [List.foldl_cons, List.foldl_cons]
      by_cases hover : (c.block id).overlaps first last = true
      · simp only [hover, if_true]
        exact ih _ _ _
      · simp only [hover]
        exact ih _ _ _

theorem invalidateBuckets_snd (m : MonitorId) (first last : Nat) (running : Option BlockId) (n : Nat) (hit hit' : Bool) (c : Cache) :
    (invalidateBuckets m first last running n (hit, c)).2 = (invalidateBuckets m first last none n (hit', c)).2 := by
  induction n generalizing hit hit' c with
  | zero => rfl
  | succ n ih =>
      rw [invalidateBuckets, invalidateBuckets]
      dsimp only
      by_cases hcode : (c.monitor m).hasCode first (last + 1 - first) = true
      · rw [if_pos hcode, if_pos hcode]
        have hblocks := invalidateBlocks_snd first last running ((c.monitor m).bucket n) hit hit' c
        rw [← Prod.mk.eta (p := invalidateBlocks first last running _ _), hblocks,
          ← Prod.mk.eta (p := invalidateBlocks first last none _ _)]
        exact ih _ _ _
      · rw [if_neg hcode, if_neg hcode]

theorem noteStore_snd (c : Cache) (m : MonitorId) (offset len : Nat) (running : Option BlockId) :
    (c.noteStore m offset len running).2 = (c.noteStore m offset len none).2 := by
  unfold noteStore
  by_cases hcode : (c.monitor m).hasCode offset len = true
  · rw [if_pos hcode, if_pos hcode]
    exact invalidateBuckets_snd ..
  · rw [if_neg hcode, if_neg hcode]

theorem write_reportRelease (c : Cache) (m : MonitorId) (page : UInt32) (mem : Memory) (paddr : UInt32) (w : Width)
    (value : UInt32) :
    (c.reportRelease m page mem).write paddr w value = c.reportRelease m page (mem.write paddr w value) := by
  unfold reportRelease
  split
  · rfl
  · have hcommute : ∀ (bytes : List UInt8) (a : UInt32) (mem : Memory),
        (mem.release page).setBytes a bytes = (mem.setBytes a bytes).release page := by
      intro bytes
      induction bytes with
      | nil => exact fun _ _ => rfl
      | cons b rest ih => exact fun a mem => ih (a + 1) (mem.setByte a b)
    exact hcommute _ _ _

/-- A checked store is the plain one, or it hits: then memory stays, and the same blocks are cleared. -/
theorem writeChecked_cases (c : Cache) (mem : Memory) (paddr : UInt32) (w : Width) (value : UInt32) (running : Option BlockId) :
    c.writeChecked mem paddr w value running = (false, c.write mem paddr w value) ∨
      c.writeChecked mem paddr w value running = (true, mem, (c.write mem paddr w value).2) := by
  unfold writeChecked write
  split
  · exact .inl rfl
  · rename_i m hm
    split
    · exact .inl rfl
    · split
      · exact .inl rfl
      · have hcache := noteStore_snd c m (pageOffset paddr) w.bytes running
        dsimp only
        generalize c.noteStore m (pageOffset paddr) w.bytes running = noted at hcache
        obtain ⟨hit, c'⟩ := noted
        dsimp only at hcache
        subst hcache
        cases hit with
        | true => exact .inr rfl
        | false => exact .inl (by rw [write_reportRelease]; rfl)

theorem writeChecked_miss {running : Option BlockId} {mem' : Memory} {c' : Cache}
    (h : c.writeChecked mem paddr w value running = (false, mem', c')) : c.write mem paddr w value = (mem', c') := by
  obtain hmiss | hhit := writeChecked_cases c mem paddr w value running
  · rw [hmiss] at h
    exact (Prod.mk.inj h).2
  · rw [hhit] at h
    cases h

theorem writeChecked_hit {running : Option BlockId} {mem' : Memory} {c' : Cache}
    (h : c.writeChecked mem paddr w value running = (true, mem', c')) : mem' = mem := by
  obtain hmiss | hhit := writeChecked_cases c mem paddr w value running
  · rw [hmiss] at h
    cases h
  · rw [hhit] at h
    exact (Prod.mk.inj (Prod.mk.inj h).2).1.symm

end Cache

open Cache

/-- An access stays within a page if its last byte does. -/
theorem fitsInPage_iff (linear : UInt32) (w : Width) :
    fitsInPage linear w = true ↔ pageOf linear = pageOf (linear + (w.bytes - 1).toUInt32) := by
  have hw : 0 < w.bytes ∧ w.bytes ≤ 4 := by cases w <;> decide
  have hsize : pageSize = 4096 := rfl
  simp only [fitsInPage, decide_eq_true_eq]
  constructor
  · intro hfit
    exact (page_add linear (n := w.bytes - 1) (by omega)).1.symm
  · intro hpage
    have := fits_of_pageOf_eq linear (n := w.bytes - 1) (by omega) hpage
    omega

/-- A short range of addresses is in the pages of its ends. -/
theorem pageOf_add_cases (a : UInt32) {i n : Nat} (hi : i ≤ n) (hn : n < pageSize) :
    pageOf (a + i.toUInt32) = pageOf a ∨ pageOf (a + i.toUInt32) = pageOf (a + n.toUInt32) := by
  have hoffset := pageOffset_lt a
  by_cases hfit : pageOffset a + i < pageSize
  · exact .inl (page_add a hfit).1
  · exact .inr ((Scan.page_add_next a (by omega) (by omega)).1.trans (Scan.page_add_next a (by omega) (by omega)).1.symm)

namespace Bus

variable {b : Bus Cache} {linear paddr a : UInt32}

theorem frame_store (b : Bus Cache) (paddr : UInt32) (w : Width) (value : UInt32) :
    (b.store paddr w value).mem.frame = b.mem.frame := by
  change (b.watch.write b.mem paddr w value).1.frame = b.mem.frame
  unfold Cache.write Memory.writeUnlessRom
  split
  · split <;> [rfl; exact frame_write ..]
  · split <;> [rfl; skip]
    split <;> [rfl; exact (frame_reportRelease ..).1.trans (frame_write ..)]

/-- A byte keeps its value unless it is the one that is stored. -/
theorem byte_store_of_ne (b : Bus Cache) (h : a ≠ paddr) (value : UInt32) : (b.store paddr .w8 value).mem.byte a = b.mem.byte a := by
  have hwrite : (b.mem.write paddr .w8 value).byte a = b.mem.byte a := by
    refine Memory.byte_write_of_ne _ _ _ fun i hi => ?_
    obtain rfl : i = 0 := Nat.lt_one_iff.mp hi
    simpa using h
  change (b.watch.write b.mem paddr .w8 value).1.byte a = b.mem.byte a
  unfold Cache.write Memory.writeUnlessRom
  split
  · split <;> [rfl; exact hwrite]
  · split <;> [rfl; skip]
    split <;> [rfl; exact (byte_congr (frame_reportRelease ..).2 a).trans hwrite]

theorem storeBytes_cons (hpaddr : b.mem.resolve linear true = .ok paddr) (x : UInt8) (rest : List UInt8) :
    b.storeBytes linear (x :: rest) = (b.store paddr .w8 x.toUInt32).storeBytes (linear + 1) rest := by
  rw [storeBytes, hpaddr]

theorem byte_storeBytes_of_ne {bytes : List UInt8} (h : ∀ i < bytes.length, b.mem.resolve (linear + i.toUInt32) true ≠ .ok a) :
    (b.storeBytes linear bytes).2.mem.byte a = b.mem.byte a := by
  induction bytes generalizing b linear with
  | nil => rfl
  | cons x rest ih =>
      cases hpaddr : b.mem.resolve linear true with
      | error fault => rw [storeBytes, hpaddr]
      | ok paddr =>
          have hfirst : a ≠ paddr := fun ha => h 0 (Nat.succ_pos _) (by simpa [ha] using hpaddr)
          rw [storeBytes_cons hpaddr, ih, byte_store_of_ne b hfirst]
          intro i hi
          rw [Memory.resolve_eq_of_frame (frame_store b paddr .w8 x.toUInt32)]
          have hnext := h (i + 1) (Nat.succ_lt_succ hi)
          rwa [Nat.toUInt32, UInt32.ofNat_add, UInt32.add_comm (UInt32.ofNat i), ← UInt32.add_assoc] at hnext

end Bus

namespace BlockEnv

variable {σ : Type} {running : Option BlockId} {linear value : UInt32} {w : Width} {bus bus' : Bus Cache}

theorem store_of_miss {mem mem' : Memory} {c c' : Cache} {paddr : UInt32}
    (h : c.writeChecked mem paddr w value running = (false, mem', c')) : (Bus.mk mem c).store paddr w value = ⟨mem', c'⟩ := by
  change Bus.mk (c.write mem paddr w value).1 (c.write mem paddr w value).2 = _
  rw [writeChecked_miss h]

/-- Bytes are stored plainly up to the one that hits. -/
theorem storeBytes_hit {bytes : List UInt8} (h : storeBytes running linear bytes bus = (.ok true, bus')) :
    ∃ n < bytes.length, bus'.mem = (bus.storeBytes linear (bytes.take n)).2.mem := by
  induction bytes generalizing linear bus with
  | nil => cases h
  | cons b rest ih =>
      obtain ⟨mem, cache⟩ := bus
      unfold storeBytes at h
      split at h
      · cases h
      · rename_i paddr hpaddr
        split at h
        · rename_i hhit
          cases h
          exact ⟨0, Nat.succ_pos _, writeChecked_hit hhit⟩
        · rename_i hmiss
          obtain ⟨n, hn, hmem⟩ := ih h
          refine ⟨n + 1, Nat.succ_lt_succ hn, ?_⟩
          rw [List.take_succ_cons, Bus.storeBytes_cons hpaddr, store_of_miss hmiss]
          exact hmem

/-- Bytes whose pages are there are stored without a fault. -/
theorem storeBytes_resolved {bytes : List UInt8} {fault : PageFault}
    (h : ∀ i < bytes.length, ∃ paddr, bus.mem.resolve (linear + i.toUInt32) true = .ok paddr) :
    storeBytes running linear bytes bus ≠ (.error fault, bus') := by
  induction bytes generalizing linear bus with
  | nil => exact fun hstore => by cases hstore
  | cons b rest ih =>
      obtain ⟨mem, cache⟩ := bus
      obtain ⟨paddr, hpaddr⟩ := h 0 (Nat.succ_pos _)
      replace hpaddr : mem.resolve linear true = .ok paddr := by simpa using hpaddr
      unfold storeBytes
      rw [hpaddr]
      dsimp only
      split
      · exact fun hstore => by cases hstore
      · rename_i mem' cache' hmiss
        refine ih fun i hi => ?_
        have hframe : mem'.frame = mem.frame := by
          have hbus := Bus.frame_store ⟨mem, cache⟩ paddr .w8 b.toUInt32
          rwa [store_of_miss hmiss] at hbus
        obtain ⟨paddr', hnext⟩ := h (i + 1) (Nat.succ_lt_succ hi)
        refine ⟨paddr', ?_⟩
        rw [Memory.resolve_eq_of_frame hframe]
        rwa [Nat.toUInt32, UInt32.ofNat_add, UInt32.add_comm (UInt32.ofNat i), ← UInt32.add_assoc] at hnext

/-- A store that faults has changed nothing. -/
theorem storeLinear_fault {fault : PageFault} (h : storeLinear linear w value running bus = (.error fault, bus')) : bus' = bus := by
  obtain ⟨mem, cache⟩ := bus
  unfold storeLinear at h
  dsimp only at h
  split at h
  · cases h
    rfl
  · rename_i paddr hpaddr
    split at h
    · cases h
    · split at h
      · cases h
        rfl
      · rename_i hlast
        refine absurd h (storeBytes_resolved fun i hi => ?_)
        rw [Memory.length_split] at hi
        -- Each byte is in the page of the first or in that of the last.
        obtain hpage | hpage := pageOf_add_cases linear (i := i) (n := w.bytes - 1) (by omega) (by cases w <;> decide)
        · exact Memory.exists_resolve_of_pageOf_eq hpage hpaddr
        · exact Memory.exists_resolve_of_pageOf_eq hpage hlast

/-- A store within a page that hits has changed nothing; across pages the bytes before the hit are stored. -/
theorem storeLinear_hit (h : storeLinear linear w value running bus = (.ok true, bus')) :
    ∃ n < w.bytes, (fitsInPage linear w = true → n = 0) ∧ bus'.mem = (bus.storeBytes linear ((w.split value).take n)).2.mem := by
  obtain ⟨mem, cache⟩ := bus
  unfold storeLinear at h
  dsimp only at h
  split at h
  · cases h
  · rename_i paddr hpaddr
    split at h
    · obtain ⟨hhit, hbus⟩ := Prod.mk.inj h
      have hwrite : cache.writeChecked mem paddr w value running = (true, bus'.mem, bus'.watch) := by
        rw [← hbus, ← Except.ok.inj hhit]
      exact ⟨0, bytes_pos w, fun _ => rfl, writeChecked_hit hwrite⟩
    · rename_i hpage
      split at h
      · cases h
      · obtain ⟨n, hn, hmem⟩ := storeBytes_hit h
        rw [Memory.length_split] at hn
        exact ⟨n, hn, fun hfit => absurd ((fitsInPage_iff linear w).mp hfit) hpage, hmem⟩

/-- When a store of a running block is given up because it hits the block, memory is what the plain stores of the bytes
before the hit make of it. These are none if the store stays within a page. Nothing else of the guest changes. -/
theorem store_withheld_from_hit {p : Platform σ} {cpu cpu' : Cpu} {env env' : BlockEnv σ}
    (h : store p linear w value running cpu env = .ok (.error .smcBlock, cpu', env')) :
    cpu' = cpu ∧ env'.host = env.host ∧ (fitsInPage linear w = true → env'.bus.mem = env.bus.mem) ∧
      ∃ n < w.bytes, env'.bus.mem = (env.bus.storeBytes linear ((w.split value).take n)).2.mem ∧
        ∀ a, (∀ i < n, env.bus.mem.resolve (linear + i.toUInt32) true ≠ .ok a) → env'.bus.mem.byte a = env.bus.mem.byte a := by
  obtain ⟨bus, host, stats⟩ := env
  unfold store at h
  dsimp only at h
  split at h
  · unfold pageFault at h
    cases h
  · rename_i hhit
    cases h
    obtain ⟨n, hn, hpage, hmem⟩ := storeLinear_hit hhit
    refine ⟨rfl, rfl, fun hfit => ?_, n, hn, hmem, fun a ha => ?_⟩
    · rw [hmem, hpage hfit]
      rfl
    · rw [hmem, Bus.byte_storeBytes_of_ne]
      intro i hi
      exact ha i (Nat.lt_of_lt_of_le hi (List.length_take_le ..))
  · cases h

/-! ### A store across the start of its own block -/

/-- Two pages of RAM. The second one begins with `mov [ebx], eax` and a jump back to it. -/
def storeLoop : Memory where
  ram := overwrite (zeroBytes (2 * pageSize)) 4096 [0x89, 0x03, 0xEB, 0xFC]
  flags := #[PageFlag.ram, PageFlag.ram]

/-- The store is to the last byte of the first page and three bytes of the block. -/
def storeCpu : Cpu :=
  { Cpu.flat32 with eip := 0x1000, regs := #v[1, 0, 0, 0xFFF, 0, 0, 0, 0] }

theorem byte_storeLoop : storeLoop.byte 0xFFF = 0 ∧ storeLoop.byte 0x1000 = 0x89 ∧ storeLoop.ram.size = 8192 := by
  have hsize : (zeroBytes (2 * pageSize)).size = 8192 := Array.size_replicate
  refine ⟨?_, ?_, ?_⟩
  · simp [Memory.byte_eq, storeLoop, getElem?_overwrite, zeroBytes, pageSize]
  · simp [Memory.byte_eq, storeLoop, getElem?_overwrite, hsize]
  · rw [storeLoop, size_overwrite, hsize]

/-- The block is compiled. -/
theorem exists_compiled_storeLoop :
    ∃ (mem : Memory) (c : Cache) (code : HostCode) (log : List Compilation),
      mem.unreleased = storeLoop.unreleased ∧ c.Sound ∧ (c.block 0).live = true ∧
        ((c.monitor 0).installed = true ∧ (c.monitor 0).page = 1 ∧ (c.monitor 0).flags = PageFlag.ram) ∧
        (c.monitor 1).installed = false ∧ c.monitors.size = 2 ∧ (c.noteStore 0 0 1 (some 0)).1 = true ∧
        Machine.History .identity Interpreter.platform
          ⟨⟨Machine.scantSettings, some ⟨c, code⟩, false, { compilations := 1 }⟩, storeCpu, mem, {}⟩ log := by
  obtain ⟨id, mem, c, code, -, hc, -, hmem, hhistory⟩ := Machine.exists_compiled
    (show storeLoop.mapped = [] from rfl) (show storeLoop.resolve storeCpu.ipLinear false = .ok 0x1000 by decide +kernel)
    (by decide +kernel) (by decide +kernel)
    (fun _ c _ => (c.block 0).live && (c.monitor 0).installed && (c.monitor 0).page == 1 &&
      (c.monitor 0).flags == PageFlag.ram && !(c.monitor 1).installed && c.monitors.size == 2 &&
      (c.noteStore 0 0 1 (some 0)).1) (by decide +kernel)
  simp only [Bool.and_eq_true, Bool.not_eq_true', beq_iff_eq] at hc
  obtain ⟨⟨⟨⟨⟨⟨hlive, hinst⟩, hpage⟩, hflags⟩, hidle⟩, hsize⟩, hhit⟩ := hc
  obtain ⟨r, hr, htracked⟩ := (hhistory storeCpu).keeps Tracked.upkeep (Interpreter.platform_confined _) (by
    simp only [List.mem_singleton, forall_eq]
    decide +kernel)
  cases hr
  exact ⟨mem, c, code, _, hmem, htracked.consistent.toSound, hlive, ⟨hinst, hpage, hflags⟩, hidle, hsize, hhit, hhistory _⟩

/-- Its store hits it after a byte was stored. -/
theorem exists_store_hit :
    ∃ (m : Machine Interpreter) (log : List Compilation) (r : Resources) (env : BlockEnv Interpreter),
      Machine.History .identity Interpreter.platform m log ∧ m.core.resources = some r ∧ (r.cache.block 0).live = true ∧
        m.mem.byte 0xFFF = 0 ∧ env.bus.mem.byte 0xFFF = 1 ∧
        store Interpreter.platform 0xFFF .w32 1 (some 0) m.cpu ⟨⟨m.mem, r.cache⟩, m.host, m.core.stats⟩ =
          .ok (.error .smcBlock, m.cpu, env) := by
  obtain ⟨mem, c, code, log, hmem, hsound, hlive, ⟨hinst, hpage, hflags⟩, hidle, hsize, hhit, hhistory⟩ := exists_compiled_storeLoop
  obtain ⟨hbyte, hcode, hram⟩ := byte_storeLoop
  rw [← Memory.byte_eq_of_unreleased hmem] at hbyte hcode
  rw [← Memory.ram_eq_of_unreleased hmem] at hram
  have hresolve (linear : UInt32) : mem.resolve linear true = .ok linear :=
    (Memory.resolve_eq_of_unreleased hmem linear true).trans rfl
  have hrom : PageFlag.has (c.monitor 0).flags PageFlag.rom = false := by
    rw [hflags]
    decide
  have hwatches := hsound.watches
  have hsecond : c.monitorOf 1 = some 0 := (hwatches.byPage 1 0).mpr ⟨hinst, hpage⟩
  have hfirst : c.monitorOf 0 = none := Machine.monitorOf_eq_none hwatches (by rw [hpage]; decide) hidle hsize
  have hmiss : c.writeChecked mem 0xFFF .w8 1 (some 0) = (false, mem.write 0xFFF .w8 1, c) := by
    have hplain : PageFlag.has (mem.pageFlags 0) PageFlag.rom = false := by
      rw [Memory.pageFlags_eq_of_unreleased hmem]
      rfl
    have hpageOf : pageOf 0xFFF = 0 := by decide
    simp [writeChecked, hpageOf, hfirst, Memory.writeUnlessRom, hplain]
  have hstored (a : UInt32) : (mem.write 0xFFF .w8 1).byte a = if a = 0xFFF then 1 else mem.byte a := by
    change (mem.setByte 0xFFF 1).byte a = _
    simp [Memory.byte_setByte, hram]
  have hgiven : c.writeChecked (mem.write 0xFFF .w8 1) 0x1000 .w8 0 (some 0) =
      (true, mem.write 0xFFF .w8 1, (c.noteStore 0 0 1 (some 0)).2) := by
    have hread : (mem.write 0xFFF .w8 1).read 0x1000 .w8 = 0x89 := by
      change joinBytes [(mem.write 0xFFF .w8 1).byte 0x1000] = 0x89
      rw [hstored, if_neg (by decide), hcode]
      rfl
    have hpageOf : pageOf 0x1000 = 1 := by decide
    have hoffset : pageOffset 0x1000 = 0 := by decide
    simp [writeChecked, hpageOf, hoffset, hsecond, hrom, hread, Width.bytes, hhit]
  have hhits : storeLinear 0xFFF .w32 1 (some 0) ⟨mem, c⟩ = (.ok true, ⟨mem.write 0xFFF .w8 1, (c.noteStore 0 0 1 (some 0)).2⟩) := by
    have hsplit : Width.w32.split 1 = [1, 0, 0, 0] := by decide
    have hcross : ¬pageOf 0xFFF = pageOf (0xFFF + (Width.w32.bytes - 1).toUInt32) := by decide
    have hresolve' : (mem.write 0xFFF .w8 1).resolve 0x1000 true = .ok 0x1000 :=
      (Memory.resolve_eq_of_frame (frame_write ..) _ _).trans (hresolve _)
    have hlinear : (0xFFF : UInt32) + 1 = 0x1000 := by decide
    have hone : UInt8.toUInt32 1 = 1 := by decide
    have hzero : UInt8.toUInt32 0 = 0 := by decide
    simp only [storeLinear, hcross, hsplit, storeBytes, hresolve, if_false, hone, hmiss, hlinear, hresolve', hzero, hgiven]
  refine ⟨⟨⟨Machine.scantSettings, some ⟨c, code⟩, false, { compilations := 1 }⟩, storeCpu, mem, {}⟩, _, ⟨c, code⟩,
    ⟨⟨mem.write 0xFFF .w8 1, (c.noteStore 0 0 1 (some 0)).2⟩, {}, { compilations := 1, smcExits := 1 }⟩, hhistory, rfl, hlive,
    hbyte, by simp [hstored], ?_⟩
  simp only [store, hhits]

/-- The store is given up at its second byte. -/
theorem store_withheld_from_hit_crossing :
    ∃ (m : Machine Interpreter) (log : List Compilation) (r : Resources) (env : BlockEnv Interpreter),
      Machine.History .identity Interpreter.platform m log ∧ m.core.resources = some r ∧
        store Interpreter.platform 0xFFF .w32 1 (some 0) m.cpu ⟨⟨m.mem, r.cache⟩, m.host, m.core.stats⟩ =
          .ok (.error .smcBlock, m.cpu, env) ∧
        ∃ n < 4, env.bus.mem = ((Bus.mk m.mem r.cache).storeBytes 0xFFF ((Width.w32.split 1).take n)).2.mem := by
  obtain ⟨m, log, r, env, hhistory, hr, -, -, -, hstore⟩ := exists_store_hit
  obtain ⟨-, -, -, n, hn, hmem, -⟩ := store_withheld_from_hit hstore
  exact ⟨m, log, r, env, hhistory, hr, hstore, n, hn, hmem⟩

/-- Its first byte is in memory then, although the running block was hit. -/
theorem store_not_withheld_crossing :
    ∃ (m : Machine Interpreter) (log : List Compilation) (r : Resources) (env : BlockEnv Interpreter),
      Machine.History .identity Interpreter.platform m log ∧ m.core.resources = some r ∧ (r.cache.block 0).live = true ∧
        store Interpreter.platform 0xFFF .w32 1 (some 0) m.cpu ⟨⟨m.mem, r.cache⟩, m.host, m.core.stats⟩ =
          .ok (.error .smcBlock, m.cpu, env) ∧ env.bus.mem.byte 0xFFF ≠ m.mem.byte 0xFFF := by
  obtain ⟨m, log, r, env, hhistory, hr, hlive, hbefore, hafter, hstore⟩ := exists_store_hit
  exact ⟨m, log, r, env, hhistory, hr, hlive, hstore, by rw [hbefore, hafter]; decide⟩

end BlockEnv

end Recompiler
