import Recompiler.Proofs.Dispatch.Monitors

/-! Fetching, by the interpreter and into a trace. The interpreter fetches byte by byte and cuts the instruction pointer
to the code size each time; a trace is fetched from consecutive linear addresses, the second page of an instruction apart.
Both find the same instruction, unless it runs past the end of a 16-bit segment. -/

namespace Recompiler

open Cache Scan

/-- Where all pages are present and none is remapped, linear addresses are physical ones. -/
theorem Memory.resolve_of_present {mem : Memory} (hmapped : mem.mapped = []) (habsent : mem.absent = []) (linear : UInt32) :
    mem.resolve linear false = .ok linear := by
  simp [Memory.resolve, hmapped, habsent]

/-! ### The interpreter's bytes -/

namespace Interpreter

variable {c : Cpu} {mem : Memory} {eip : UInt32}

/-- The bytes the interpreter fetches if no page is missing. -/
theorem fetch_of_resolve (h : ∀ linear, mem.resolve linear false = .ok linear) (n : Nat) (eip : UInt32) :
    fetch c mem n eip =
      ((List.range n).map fun i => mem.byte (c.base .cs + ((eip + i.toUInt32) &&& c.ipMask)), none) := by
  induction n generalizing eip with
  | zero => rfl
  | succ n ih =>
      rw [fetch, h]
      dsimp only
      rw [ih, List.range_succ_eq_map, List.map_cons, List.map_map]
      have hzero : eip + (0 : Nat).toUInt32 = eip := by simp
      rw [hzero]
      refine congrArg (fun bytes => (mem.byte _ :: bytes, none)) (List.map_congr_left fun i _ => ?_)
      rw [Function.comp_apply, Nat.succ_eq_one_add, add_toUInt32]
      rfl

/-- An instruction pointer that stays within the segment is not cut. -/
theorem and_ipMask {i : Nat} (h : c.codeBig = true ∨ eip.toNat + i < 65536) :
    (eip + i.toUInt32) &&& c.ipMask = eip + i.toUInt32 := by
  rw [Cpu.ipMask, ← UInt32.toNat_inj, UInt32.toNat_and]
  have hlt := (eip + i.toUInt32).toNat_lt
  rcases Bool.eq_false_or_eq_true c.codeBig with hbig | hbig
  · have hmask : (0xFFFFFFFF : UInt32).toNat = 2 ^ 32 - 1 := rfl
    rw [hbig, if_pos rfl, hmask, Nat.and_two_pow_sub_one_eq_mod, Nat.mod_eq_of_lt hlt]
  · have hmask : (0xFFFF : UInt32).toNat = 2 ^ 16 - 1 := rfl
    have hfit : eip.toNat + i < 65536 := h.resolve_left (by simp [hbig])
    have hsum : (eip + i.toUInt32).toNat = eip.toNat + i := by
      rw [UInt32.toNat_add, toNat_ofNat_toUInt32 (by omega), Nat.mod_eq_of_lt (by omega)]
    rw [hbig, if_neg Bool.false_ne_true, hmask, Nat.and_two_pow_sub_one_eq_mod, hsum, Nat.mod_eq_of_lt hfit]

/-- Within the segment the interpreter fetches consecutive bytes. -/
theorem take_fetch (h : ∀ linear, mem.resolve linear false = .ok linear) {n len : Nat} (hlen : len ≤ n)
    (hfit : c.codeBig = true ∨ eip.toNat + len ≤ 65536) :
    (codeBytes mem (c.base .cs + eip) n).take len = (fetch c mem n eip).1.take len := by
  rw [fetch_of_resolve h, codeBytes, ← List.map_take, ← List.map_take, List.take_range, Nat.min_eq_left hlen]
  refine List.map_congr_left fun i hi => ?_
  have hi := List.mem_range.mp hi
  rw [and_ipMask (hfit.imp_right fun hfit => by omega), UInt32.add_assoc]

/-- The instruction at the instruction pointer, as the interpreter finds it. -/
theorem exists_decode_fetch (c : Cpu) (eip : UInt32) (h : ∀ linear, mem.resolve linear false = .ok linear) :
    ∃ inst, decode (fetch c mem Encoding.maxLength eip).1 eip c.codeBig = .ok inst := by
  refine decode_of_length ?_ eip c.codeBig
  rw [fetch_of_resolve h]
  simp

end Interpreter

/-! ### The first instruction of a trace -/

namespace Compilation

variable {k : Compilation} {l : List MonitorId}

/-- The second page of the first instruction: it gets a part of the block, or there is no descriptor for one, or it may
not hold code. -/
theorem needCompanion_cases (h : k.Pending) (hc : k.cache.Sound) (hresolve : ∀ linear, k.mem.resolve linear false = .ok linear)
    {r : Except CoreError (Option Companion)} {s : Scan} (hr : k.scan.needCompanion k.site = .ok (r, s)) :
    s.mem.unreleased = k.mem.unreleased ∧
      ((∃ o, r = .ok (some o) ∧ o.page = nextPage (pageOf k.cpu.ipLinear)) ∨ r = .error .outOfBlocks ∨
        r = .ok none ∧ k.mem.barred (nextPage (pageOf k.cpu.ipLinear)) = true) := by
  have hsite := h.sited hc
  have hkeep : (k.scan.cache.monitor k.site.monitor).code32 = k.site.cpu.codeBig := by
    rw [hsite.monitor, hsite.cpu_eq, Monitor.code32_eq_of_core (hsite.core_monitor k.monitor), h.code32]
  have hpage : pageOf (pageBase (k.site.linearPage + 1)) = nextPage (pageOf k.cpu.ipLinear) := by
    rw [hsite.linearPage, nextPage]
  unfold Scan.needCompanion at hr
  dsimp only [Compilation.scan] at hr
  generalize hsearch : Cache.codePage _ _ (pageBase (k.site.linearPage + 1)) _ _ = out at hr
  obtain abort | ⟨r₁, mem, c⟩ := out
  · cases hr
  have hresult := codePage_result (hresolve _) hsearch
  rw [hpage] at hresult
  rcases codePage_spec hsite.sound (fun _ _ m _ hcode hm => hcode (Option.some.inj hm ▸ hkeep)) hsearch with
    ⟨fault, hfault, -⟩ | ⟨paddr, hpaddr, hp, hm⟩
  · rw [hresolve] at hfault
    cases hfault
  obtain rfl := Except.ok.inj ((hresolve _).symm.trans hpaddr)
  rw [hpage] at hm
  rcases hresult with ⟨m, rfl, -⟩ | ⟨rfl, hbarred⟩
  · dsimp only at hr
    cases halloc : c.allocate with
    | error e =>
        have he : e = .outOfBlocks := by
          unfold Cache.allocate at halloc
          split at halloc <;> cases halloc
          rfl
        rw [halloc] at hr
        cases hr
        exact ⟨hp.memory, .inr (.inl (by rw [he]))⟩
    | ok out =>
        obtain ⟨id, d⟩ := out
        rw [halloc] at hr
        cases hr
        have ha := allocate_spec hp.sound halloc
        refine ⟨hp.memory, .inl ⟨_, rfl, ?_⟩⟩
        have hcore := (ha.unlisted.core_monitor_pair m k.site.block m).trans (by rw [ha.monitor])
        exact (Monitor.page_eq_of_core hcore).trans ((hp.sound.watches.byPage _ m).mp (hm m rfl).1).2
  · cases hr
    exact ⟨hp.memory, .inr (.inr ⟨rfl, hbarred⟩)⟩

/-- What memory spells at the instruction pointer is what decoding there gives, if it gives anything. -/
theorem decodeAt_of_spelled (h : k.Pending) (hc : k.cache.Sound) (hresolve : ∀ linear, k.mem.resolve linear false = .ok linear)
    {inst : Instruction} (hinst : decode (codeBytes k.mem k.cpu.ipLinear Encoding.maxLength) k.cpu.eip k.cpu.codeBig = .ok inst)
    {r : Except CoreError (Option Instruction)} {s : Scan} (hr : k.scan.decodeAt k.site k.cpu.eip k.cpu.ipLinear = .ok (r, s)) :
    r = .ok (some inst) ∨ pageSize < pageOffset k.cpu.ipLinear + inst.len ∧
      (r = .error .outOfBlocks ∨ r = .ok none ∧ k.mem.barred (nextPage (pageOf k.cpu.ipLinear)) = true) := by
  have hsite := h.sited hc
  have hpage : k.site.page = pageOf k.cpu.ipLinear := by
    obtain ⟨paddr, hpaddr, hpage⟩ := h.page
    rw [hsite.page, hpage, Except.ok.inj (hpaddr.symm.trans (hresolve _))]
  have hoffset := pageOffset_lt k.cpu.ipLinear
  unfold Scan.decodeAt at hr
  rw [hsite.cpu_eq, if_pos hsite.linearPage.symm, hpage] at hr
  dsimp only [Compilation.scan] at hr
  rw [pageBytes_eq] at hr
  split at hr
  · rename_i inst' hdecode
    obtain ⟨-, -, -, hmax, -⟩ := decode_ok hdecode
    rw [decode_codeBytes hdecode hmax] at hinst
    cases hr
    cases hinst
    exact .inl rfl
  · rename_i e hdecode
    have hshort := lt_maxLength_of_decode_error hdecode
    rw [Nat.min_eq_right hshort.le] at hr hdecode
    have hlong : pageSize < pageOffset k.cpu.ipLinear + inst.len := by
      by_contra hfit
      rw [decode_codeBytes hinst (k := pageSize - pageOffset k.cpu.ipLinear) (by omega)] at hdecode
      cases hdecode
    generalize hneed : Scan.needCompanion k.site _ = out at hr
    obtain abort | ⟨r₁, s₁⟩ := out
    · cases hr
    obtain ⟨hmem, ⟨o, rfl, hsecond⟩ | rfl | ⟨rfl, hbarred⟩⟩ := needCompanion_cases h hc hresolve hneed
    · dsimp only at hr
      rw [length_codeBytes, hsecond, codeBytes_append_pageBytes hmem hshort, hinst] at hr
      cases hr
      exact .inl rfl
    · cases hr
      exact .inr ⟨hlong, .inl rfl⟩
    · cases hr
      exact .inr ⟨hlong, .inr ⟨rfl, hbarred⟩⟩

/-- What memory spells at the instruction pointer is the first instruction of the trace, if there is one. -/
theorem fetch_of_spelled (h : k.Pending) (hc : k.cache.Sound) (hl : Lineup k.cache none l)
    (hresolve : ∀ linear, k.mem.resolve linear false = .ok linear) {inst : Instruction}
    (hinst : decode (codeBytes k.mem k.cpu.ipLinear Encoding.maxLength) k.cpu.eip k.cpu.codeBig = .ok inst) :
    ∃ r s, k.scan.fetch k.site k.cpu.eip = .ok (r, s) ∧
      ((∃ f, r = .ok (some f) ∧ f.inst = inst) ∨ pageSize < pageOffset k.cpu.ipLinear + inst.len ∧
        (r = .error .outOfBlocks ∨ r = .ok none ∧ k.mem.barred (nextPage (pageOf k.cpu.ipLinear)) = true)) := by
  have hlinear : k.site.cpu.base .cs + k.cpu.eip = k.cpu.ipLinear := by rw [(h.sited hc).cpu_eq, Cpu.ipLinear]
  obtain ⟨⟨r, s⟩, hfetch⟩ := (searchable hl).fetch k.cpu.eip
  refine ⟨r, s, hfetch, ?_⟩
  unfold Scan.fetch at hfetch
  dsimp only at hfetch
  rw [hlinear] at hfetch
  generalize hdecode : Scan.decodeAt k.site k.cpu.eip k.cpu.ipLinear k.scan = out at hfetch
  obtain abort | ⟨r₁, s₁⟩ := out
  · cases hfetch
  rcases decodeAt_of_spelled h hc hresolve hinst hdecode with rfl | ⟨hlong, rfl | ⟨rfl, hbarred⟩⟩
  · cases hfetch
    exact .inl ⟨_, rfl, rfl⟩
  · cases hfetch
    exact .inr ⟨hlong, .inl rfl⟩
  · cases hfetch
    exact .inr ⟨hlong, .inr ⟨rfl, hbarred⟩⟩

end Compilation

namespace Engine

variable {σ : Type} {p : Platform σ} {e : Engine σ} {phase : Phase} {log : List Compilation} {record : List MonitorId}

/-- Whatever block is compiled from a state that can be reached, for any processor and any memory in which all pages are
present and none is remapped: the first instruction of the trace is the one the interpreter decodes, unless that runs
past the end of a 16-bit segment. It is missing only if it goes on to a second page and there is no descriptor for a part
of the block there, or that page may not hold code. -/
theorem fetch_eq_interpreted (hp : p.Confined .free) (h : Visits .free p e phase log record) {k : Compilation}
    (hcache : k.cache = e.cache) (hpending : k.Pending) (hmapped : k.mem.mapped = []) (habsent : k.mem.absent = []) :
    ∃ inst, decode (Interpreter.fetch k.cpu k.mem Encoding.maxLength k.cpu.eip).1 k.cpu.eip k.cpu.codeBig = .ok inst ∧
      (k.cpu.codeBig = true ∨ k.cpu.eip.toNat + inst.len ≤ 65536 →
        ∃ r s, k.scan.fetch k.site k.cpu.eip = .ok (r, s) ∧
          ((∃ f, r = .ok (some f) ∧ f.inst = inst) ∨ pageSize < pageOffset k.cpu.ipLinear + inst.len ∧
            (r = .error .outOfBlocks ∨ r = .ok none ∧ k.mem.barred (nextPage (pageOf k.cpu.ipLinear)) = true))) := by
  obtain ⟨l, hl, -⟩ := h.lineup hp
  have hs := (h.keeps (Housed.upkeep _ fun _ => True) hp fun _ _ => trivial).1.sound
  rw [← hcache] at hl
  have hresolve := Memory.resolve_of_present hmapped habsent
  obtain ⟨inst, hinst⟩ := Interpreter.exists_decode_fetch k.cpu k.cpu.eip hresolve
  refine ⟨inst, hinst, fun hfit => ?_⟩
  obtain ⟨-, -, -, hmax, hstable⟩ := decode_ok hinst
  exact Compilation.fetch_of_spelled hpending (hcache ▸ hs) hl hresolve (hstable _ (Interpreter.take_fetch hresolve hmax hfit))

/-! ### Code behind the end of a segment -/

/-- A 16-bit segment and a page behind it: one instruction at its start, another one behind its end. -/
def pastSegment : Memory where
  ram := overwrite (overwrite (zeroBytes (17 * pageSize)) 0 [0xB0, 0x11]) 65536 [0xB0, 0x22]
  flags := Array.replicate 17 PageFlag.ram

theorem byte_pastSegment : pastSegment.byte 0 = 0xB0 ∧ pastSegment.byte 1 = 0x11 ∧ pastSegment.byte 65536 = 0xB0 ∧
    pastSegment.byte 65537 = 0x22 := by
  have hsize : (zeroBytes (17 * pageSize)).size = 69632 := Array.size_replicate
  simp only [Memory.byte_eq, pastSegment, getElem?_overwrite, size_overwrite, hsize]
  decide

theorem pageFlags_pastSegment : pastSegment.pageFlags 0 = PageFlag.ram ∧ pastSegment.pageFlags 16 = PageFlag.ram := by
  decide

/-- The block at the instruction pointer of a 16-bit processor is compiled next. -/
theorem exists_visits_pastSegment {eip : UInt32} (hflags : pastSegment.pageFlags (pageOf eip) = PageFlag.ram) :
    ∃ (e : Engine Interpreter) (phase : Phase) (log : List Compilation) (record : List MonitorId),
      Visits .free Interpreter.platform e phase log record ∧
        (Machine.scantCompilation pastSegment { Cpu.realMode with eip } eip).cache = e.cache ∧
        (Machine.scantCompilation pastSegment { Cpu.realMode with eip } eip).Pending := by
  have hresolve : pastSegment.resolve ({ Cpu.realMode with eip } : Cpu).ipLinear false = .ok eip := by
    refine (Memory.resolve_of_present rfl rfl _).trans (congrArg Except.ok ?_)
    simp [Cpu.ipLinear, Cpu.base, Cpu.realMode]
  have hhistory : Machine.History .free Interpreter.platform (Machine.scantMachine pastSegment { Cpu.realMode with eip }) [] :=
    Machine.history_scantMachine _ trivial _
  obtain ⟨r, record, hr, hvisit⟩ := hhistory.visits (Interpreter.platform_confined _)
  obtain rfl : ⟨Machine.scantCache, Machine.scantCode⟩ = r := Option.some.inj hr
  exact ⟨_, _, _, _, hvisit.search (Machine.codePage_scantCache hresolve hflags _), rfl,
    (Machine.due_scantCompilation rfl hresolve hflags).toPending⟩

theorem take_fetch_pastSegment {eip : UInt32} (heip : eip = 0 ∨ eip = 65536) :
    (Interpreter.fetch { Cpu.realMode with eip } pastSegment Encoding.maxLength eip).1.take 2 = [0xB0, 0x11].take 2 := by
  obtain ⟨hfirst, hsecond, -, -⟩ := byte_pastSegment
  rw [Interpreter.fetch_of_resolve (Memory.resolve_of_present rfl rfl)]
  rcases heip with rfl | rfl
  · change [pastSegment.byte 0, pastSegment.byte 1] = [0xB0, 0x11]
    rw [hfirst, hsecond]
  · change [pastSegment.byte 0, pastSegment.byte 1] = [0xB0, 0x11]
    rw [hfirst, hsecond]

/-- At the start of the segment. -/
theorem fetch_eq_interpreted_start :
    ∃ (e : Engine Interpreter) (phase : Phase) (log : List Compilation) (record : List MonitorId) (k : Compilation),
      Visits .free Interpreter.platform e phase log record ∧ k.cache = e.cache ∧ k.Pending ∧ k.mem.mapped = [] ∧
        k.mem.absent = [] ∧ k.cpu.codeBig = false ∧
        ∃ inst f s, decode (Interpreter.fetch k.cpu k.mem Encoding.maxLength k.cpu.eip).1 k.cpu.eip k.cpu.codeBig = .ok inst ∧
          k.scan.fetch k.site k.cpu.eip = .ok (.ok (some f), s) ∧ f.inst = inst := by
  have hflags : pastSegment.pageFlags (pageOf 0) = PageFlag.ram := pageFlags_pastSegment.1
  obtain ⟨e, phase, log, record, hvisit, hcache, hpending⟩ := exists_visits_pastSegment hflags
  obtain ⟨i, hi, hlen⟩ : ∃ i, decode [0xB0, 0x11] 0 false = .ok i ∧ i.len = 2 := ⟨_, rfl, rfl⟩
  obtain ⟨-, -, -, -, hstable⟩ := decode_ok hi
  obtain ⟨inst, hinst, hfetch⟩ := fetch_eq_interpreted (Interpreter.platform_confined _) hvisit hcache hpending rfl rfl
  obtain rfl : i = inst := Except.ok.inj ((hstable _ (hlen ▸ take_fetch_pastSegment (.inl rfl))).symm.trans hinst)
  obtain ⟨r, s, hr, ⟨f, rfl, hf⟩ | ⟨hlong, -⟩⟩ := hfetch (.inr (by rw [hlen]; decide))
  · exact ⟨e, phase, log, record, _, hvisit, hcache, hpending, rfl, rfl, rfl, i, f, s, hinst, hr, hf⟩
  · rw [hlen] at hlong
    exact absurd hlong (by decide)

/-- Behind its end the interpreter is back at the start of the segment, and the trace is not. -/
theorem fetch_ne_interpreted_wrapped :
    ∃ (e : Engine Interpreter) (phase : Phase) (log : List Compilation) (record : List MonitorId) (k : Compilation),
      Visits .free Interpreter.platform e phase log record ∧ k.cache = e.cache ∧ k.Pending ∧ k.mem.mapped = [] ∧
        k.mem.absent = [] ∧
        ∃ inst f s, decode (Interpreter.fetch k.cpu k.mem Encoding.maxLength k.cpu.eip).1 k.cpu.eip k.cpu.codeBig = .ok inst ∧
          k.scan.fetch k.site k.cpu.eip = .ok (.ok (some f), s) ∧ f.inst ≠ inst := by
  have hflags : pastSegment.pageFlags (pageOf 65536) = PageFlag.ram := pageFlags_pastSegment.2
  obtain ⟨e, phase, log, record, hvisit, hcache, hpending⟩ := exists_visits_pastSegment hflags
  obtain ⟨i, j, hi, hj, hilen, hjlen, hne⟩ : ∃ i j, decode [0xB0, 0x11] 65536 false = .ok i ∧
    decode [0xB0, 0x22] 65536 false = .ok j ∧ i.len = 2 ∧ j.len = 2 ∧ j ≠ i := ⟨_, _, rfl, rfl, rfl, rfl, by decide⟩
  obtain ⟨-, -, -, -, hstable⟩ := decode_ok hi
  obtain ⟨-, -, -, -, hstable'⟩ := decode_ok hj
  have hspelled : (codeBytes pastSegment 65536 Encoding.maxLength).take 2 = [0xB0, 0x22].take 2 := by
    obtain ⟨-, -, hfirst, hsecond⟩ := byte_pastSegment
    change [pastSegment.byte 65536, pastSegment.byte 65537] = _
    rw [hfirst, hsecond]
    rfl
  obtain ⟨l, hl, -⟩ := hvisit.lineup (Interpreter.platform_confined _)
  have hs := (hvisit.keeps (Housed.upkeep _ fun _ => True) (Interpreter.platform_confined _) fun _ _ => trivial).1.sound
  obtain ⟨r, s, hr, ⟨f, rfl, hf⟩ | ⟨hlong, -⟩⟩ := Compilation.fetch_of_spelled hpending (hcache ▸ hs) (hcache ▸ hl)
    (Memory.resolve_of_present rfl rfl) (hstable' _ (hjlen ▸ hspelled))
  · exact ⟨e, phase, log, record, _, hvisit, hcache, hpending, rfl, rfl, i, f, s,
      hstable _ (hilen ▸ take_fetch_pastSegment (.inr rfl)), hr, hf ▸ hne⟩
  · rw [hjlen] at hlong
    exact absurd hlong (by decide)

end Engine

end Recompiler
