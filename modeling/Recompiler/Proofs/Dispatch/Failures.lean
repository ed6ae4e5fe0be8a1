import Recompiler.Proofs.Dispatch.Budget
import Recompiler.Proofs.Dispatch.Companions

/-! Compilations that fail. There may be no descriptor for the part on a second page or for the rest of the span, and the
code may be longer than the span. Whatever it was, the block is cleared, and the cache is as sound as before. -/

namespace Recompiler

open Cache

/-! ### How a compilation fails -/

theorem Cache.allocate_eq_error {c : Cache} {err : CoreError} (h : c.allocate = .error err) :
    err = .outOfBlocks ∧ c.freeHead = none := by
  unfold allocate at h
  split at h
  · rename_i hfree
    cases h
    exact ⟨rfl, hfree⟩
  · cases h

namespace Scan

variable {site : Site} {s s' : Scan} {err : CoreError} {eip linear : UInt32}

/-- A trace that is not taken to its end lacks a descriptor for the second page. -/
def Lacks (s : Scan) (err : CoreError) : Prop :=
  s.companion = none ∧ s.cache.allocate = .error err

theorem needCompanion_error (h : s.needCompanion site = .ok (.error err, s')) : s'.Lacks err := by
  cases needCompanion_cases h with
  | scarce _ halloc => exact ⟨rfl, halloc⟩

theorem decodeAt_error (h : s.decodeAt site eip linear = .ok (.error err, s')) : s'.Lacks err := by
  cases decodeAt_cases h with
  | scarce hneed => exact needCompanion_error hneed

theorem fetch_error (h : s.fetch site eip = .ok (.error err, s')) : s'.Lacks err := by
  cases fetch_cases h with
  | scarce hdecode => exact decodeAt_error hdecode

theorem Takes.lacks {n : Nat} {r : Except CoreError Trace} (h : Takes site n eip s r s') (hr : r = .error err) :
    s'.Lacks err := by
  induction h with
  | scarce hfetch =>
      cases hr
      exact fetch_error hfetch
  | missing | terminal | full => cases hr
  | @more _ _ _ _ _ _ r _ _ _ ih =>
      cases r with
      | error =>
          cases hr
          exact ih rfl
      | ok => cases hr

theorem take_error {n : Nat} (h : Scan.take site n eip s = .ok (.error err, s')) : s'.Lacks err :=
  (take_cases h).lacks rfl

end Scan

namespace Compilation

variable {k : Compilation} {s : Scan} {err : CoreError}

/-- Why a compilation fails, and in which state. -/
inductive Failure (k : Compilation) (s : Scan) : CoreError → Prop where
  /-- There is no descriptor for the part on the second page. -/
  | companion (hout : k.outcome = .ok (.error .outOfBlocks, s)) (hnone : s.companion = none)
      (hfree : s.cache.freeHead = none) : Failure k s .outOfBlocks
  /-- The code is longer than the span. -/
  | overrun {t : Trace} {written : Nat} {code' : HostCode} (hout : k.outcome = .ok (.ok t, s))
      (hemit : k.emission = .ok (.ok written, code')) (hlong : k.room < written) : Failure k s (.overrun written k.room)
  /-- There is no descriptor for the rest of the span. -/
  | split {t : Trace} {written : Nat} {code' : HostCode} (hout : k.outcome = .ok (.ok t, s))
      (hemit : k.emission = .ok (.ok written, code')) (hfit : written ≤ k.room)
      (hrest : written + s.cache.settings.align < (s.cache.block k.block).codeSize) (hfree : s.cache.freeHead = none) :
      Failure k s .outOfBlocks

theorem Failure.exists_outcome (h : k.Failure s err) : ∃ t, k.outcome = .ok (t, s) := by
  cases h with
  | companion hout => exact ⟨_, hout⟩
  | overrun hout => exact ⟨_, hout⟩
  | split hout => exact ⟨_, hout⟩

/-- The block being compiled is open until then. -/
theorem Pending.building (h : k.Pending) (hc : k.cache.Sound) {t : Except CoreError Trace} (hout : k.outcome = .ok (t, s)) :
    s.cache.building = some k.block ∧ s.cache.active = k.block ∧ (s.cache.block k.block).live = true := by
  have hsteadies := (h.steady hc).take hout
  have hsited := h.sited hc
  exact ⟨hsteadies.2.off.building.trans hsited.building, hsteadies.2.off.active.trans hsited.active, hsteadies.1.live⟩

/-- Closing the block fails. -/
theorem Failure.of_finish {t : Trace} {written : Nat} {code' : HostCode} {c' : Cache} (hout : k.outcome = .ok (.ok t, s))
    (hemit : k.emission = .ok (.ok written, code')) (hroom : s.cache.capacity k.block = k.room)
    (hfinish : s.cache.finish k.block written = (.error err, c')) : k.Failure s err := by
  unfold finish at hfinish
  dsimp only at hfinish
  have hcapacity : Cache.capacity { s.cache with building := none } k.block = k.room := hroom
  rw [hcapacity] at hfinish
  split at hfinish
  · rename_i hlong
    cases hfinish
    exact .overrun hout hemit hlong
  · rename_i hfit
    split at hfinish
    · rename_i htrim
      cases hfinish
      unfold trim at htrim
      dsimp only at htrim
      split at htrim
      · rename_i hrest
        split at htrim
        · rename_i halloc
          cases htrim
          obtain ⟨rfl, hfree⟩ := allocate_eq_error halloc
          exact .split hout hemit (Nat.le_of_not_lt hfit) hrest hfree
        · cases htrim
      · cases htrim
    · cases hfinish

/-- A compilation that fails clears its block. -/
theorem Pending.failure {log : List Compilation} (h : k.Pending) (hhoused : Housed log k.cache k.code) {mem' : Memory}
    {c' : Cache} {code' : HostCode} (hr : k.result = .ok (.error err, mem', c', code')) :
    ∃ s, k.Failure s err ∧ c' = { s.cache with building := none }.clearBlock k.block := by
  have hc := hhoused.sound
  rw [result_eq] at hr
  split at hr
  · cases hr
  · rename_i s hout
    cases hr
    obtain ⟨hbuilding, -, hlive⟩ := h.building hc hout
    obtain ⟨hnone, halloc⟩ := Scan.take_error hout
    obtain ⟨rfl, hfree⟩ := allocate_eq_error halloc
    refine ⟨s, .companion hout hnone hfree, ?_⟩
    unfold abandon
    rw [hbuilding]
    exact if_pos hlive
  · rename_i t s hout
    obtain ⟨hbuilding, -, -⟩ := h.building hc hout
    obtain ⟨hstart, hroom⟩ := h.window hc hout
    have htrace : k.trace = t := by rw [trace, hout]
    obtain ⟨written, code₁, hemission⟩ := exists_emission hhoused
    have hemit := hemission
    unfold emission at hemit
    unfold Compile.emit closeBlock at hr
    rw [hstart, hroom, ← htrace, hemit, hbuilding] at hr
    dsimp only at hr
    generalize hfinish : s.cache.finish k.block written = finished at hr
    obtain ⟨_ | _, c₁⟩ := finished
    · cases hr
      refine ⟨s, .of_finish hout hemission hroom hfinish, ?_⟩
      rw [finish_error hfinish]
    · cases hr

/-- The code is longer than the span exactly if that is what the compilation fails with. -/
theorem Pending.overrun_iff {log : List Compilation} (h : k.Pending) (hhoused : Housed log k.cache k.code)
    {r : Except CoreError BlockId} {mem' : Memory} {c' : Cache} {code' : HostCode} (hr : k.result = .ok (r, mem', c', code')) :
    (∃ written capacity, r = .error (.overrun written capacity)) ↔
      ∃ t s written code₁, k.outcome = .ok (.ok t, s) ∧ k.emission = .ok (.ok written, code₁) ∧ k.room < written := by
  constructor
  · rintro ⟨written, capacity, rfl⟩
    obtain ⟨s, hfailure, -⟩ := h.failure hhoused hr
    cases hfailure with
    | overrun hout hemit hlong => exact ⟨_, _, _, _, hout, hemit, hlong⟩
  · rintro ⟨t, s, written, code₁, hout, hemit, hlong⟩
    obtain ⟨t', s', hout', -, -, -, ⟨⟨err, rfl⟩, -⟩ | ⟨-, written', hclosed, hemit'⟩⟩ := h.settles hhoused.sound hr
    · obtain ⟨s₁, hfailure, -⟩ := h.failure hhoused hr
      cases hfailure with
      | companion hout₁ =>
          rw [hout] at hout₁
          cases hout₁
      | overrun _ hemit₁ _ => exact ⟨_, _, rfl⟩
      | split _ hemit₁ hfit =>
          rw [hemit] at hemit₁
          cases hemit₁
          exact absurd hlong (Nat.not_lt.mpr hfit)
    · have hfits := hclosed.fits
      rw [(h.window hhoused.sound hout').2] at hfits
      rw [hemit] at hemit'
      cases hemit'
      exact absurd hlong (Nat.not_lt.mpr hfits)

end Compilation

/-! ### What a failed compilation leaves -/

/-- The shared code stands before all blocks. -/
theorem Programmed.stub_lt {log : List Compilation} {c : Cache} {code : HostCode} (h : Programmed log c code) (slot : Slot) :
    c.stubs.get slot < c.arenaBase + c.blocksStart := by
  rw [h.stubs, h.base, h.first]
  cases hbackend : code.emitter.backend with
  | portable =>
      obtain ⟨offset, haddr, hend, -⟩ := h.shared hbackend slot
      have hsize : 0 < Threaded.encoding.codeSize [.exit (.ofSlot slot.index)] := by cases slot <;> decide
      omega
  | native =>
      obtain ⟨offset, hlt, haddr, -⟩ := h.exits hbackend slot
      omega

/-- A span that holds no block is not the end of any link, and no entry of the link table is its address. -/
theorem Programmed.unreachable {log : List Compilation} {c : Cache} {code : HostCode} (h : Programmed log c code) {id : BlockId}
    (hid : id = c.active) (hdead : (c.block id).live = false) :
    (∀ m offset, c.find m offset ≠ some id) ∧ (∀ x slot, (c.linkSlot x slot).target ≠ some id) ∧
      ∀ x < c.blocks.size, ∀ slot, c.linkEntry x slot ≠ c.codeAddr id := by
  have hlinked := h.sound.layout.linked
  have hgone : ¬c.Runnable id := fun hrun => absurd (hdead.symm.trans hrun.1) (by decide)
  refine ⟨fun m offset hfind => ?_, fun x slot htarget => hgone (hlinked.ends x id slot htarget).2, fun x hx slot hentry => ?_⟩
  · obtain ⟨howner, -⟩ := find_spec h.sound.registry hfind
    exact absurd (hdead.symm.trans (live_iff.mpr ⟨m, howner⟩)) (by decide)
  · obtain ⟨spans, free, hpool⟩ := h.sound.layout.pool
    have hspan : id ∈ spans := hid ▸ hpool.active
    rw [hlinked.entry x hx slot] at hentry
    cases htarget : (c.linkSlot x slot).target with
    | none =>
        rw [htarget] at hentry
        have hstub := h.stub_lt slot
        have hfirst := (hpool.tiled.bounds hspan).1
        have haddr : c.stubs.get slot = c.arenaBase + (c.block id).codeStart := hentry
        omega
    | some y =>
        rw [htarget] at hentry
        have hrun := (hlinked.ends x y slot htarget).2
        obtain rfl : y = id := hpool.codeStart_inj (hpool.span_of_live y hrun) hspan (Nat.add_left_cancel hentry)
        exact hgone hrun

namespace Engine

variable {σ : Type} {p : Platform σ} {e : Engine σ} {phase : Phase} {log : List Compilation} {record : List MonitorId}

/-- A compilation in a state that can be reached fails for want of a descriptor, or because its code is longer than the
span: that it reports exactly if it is so. Then no block is open, the cursor is where it was, and the cache is sound, with the
monitors in a line. The block being compiled is cleared, in no bucket, with its slots empty and their entries at the stubs,
and its companion is a free descriptor. Neither a search nor a link leads to the code that was written. -/
theorem failed_compilation_cleared (hp : p.Confined .free) (h : Visits .free p e phase log record) {k : Compilation}
    (hcache : k.cache = e.cache) (hcode : k.code = e.code) (hpending : k.Pending) {r : Except CoreError BlockId} {mem' : Memory}
    {c' : Cache} {code' : HostCode} (hr : k.result = .ok (r, mem', c', code')) :
    ((∃ written capacity, r = .error (.overrun written capacity)) ↔
      ∃ t s written code₁, k.outcome = .ok (.ok t, s) ∧ k.emission = .ok (.ok written, code₁) ∧ k.room < written) ∧
    ∀ err, r = .error err →
      (err = .outOfBlocks ∨ ∃ written, err = .overrun written k.room) ∧
      c'.building = none ∧ c'.active = k.cache.active ∧ c'.Sound ∧ (∃ l, Lineup c' none l) ∧
      ((c'.block k.block).live = false ∧ (∀ m i, k.block ∉ (c'.monitor m).bucket i) ∧
        ∀ slot, c'.linkSlot k.block slot = {} ∧ c'.linkEntry k.block slot = c'.stubs.get slot) ∧
      (∃ t s, k.outcome = .ok (t, s) ∧ ∀ o, (s.cache.block k.block).companion = some o → c'.freeDescriptors.count o = 1) ∧
      (∀ m offset, c'.find m offset ≠ some k.block) ∧ (∀ x slot, (c'.linkSlot x slot).target ≠ some k.block) ∧
      ∀ x < c'.blocks.size, ∀ slot, c'.linkEntry x slot ≠ c'.codeAddr k.block := by
  have hprogrammed : Programmed log k.cache k.code := by
    rw [hcache, hcode]
    exact (h.keeps (Programmed.upkeep _ fun _ => True) hp fun _ _ => trivial).1
  have hc := hprogrammed.sound
  refine ⟨hpending.overrun_iff hprogrammed.toHoused hr, ?_⟩
  rintro err rfl
  obtain ⟨s, hfailure, rfl⟩ := hpending.failure hprogrammed.toHoused hr
  obtain ⟨t, hout⟩ := hfailure.exists_outcome
  obtain ⟨-, hactive, hlive⟩ := hpending.building hc hout
  have hsteady := ((hpending.steady hc).take hout).1
  have hprogrammed' := hprogrammed.compile hpending hr
  have hgiven := givenUp_clearBlock hsteady.sound hlive
  have hclears := Clears.clearBlock { s.cache with building := none } k.block
  have hshell := (ShellSame.clearBlock { s.cache with building := none } k.block).shell
  obtain ⟨l, hl, -⟩ := h.lineup hp
  obtain ⟨l', -, hl'⟩ := Compilation.turns_result hr l (hcache ▸ hl)
  generalize Cache.clearBlock { s.cache with building := none } k.block = c' at hr hprogrammed' hgiven hclears hshell hl' ⊢
  have hbuilding : c'.building = none := congrArg Cache.building hshell
  have hactive' : c'.active = k.block := (congrArg Cache.active hshell).trans hactive
  have hlinked := hgiven.sound.layout.linked
  have hgone : ¬c'.Runnable k.block := fun hrun => absurd (hgiven.dead.symm.trans hrun.1) (by decide)
  have hlt : k.block < c'.blocks.size := hgiven.evolves.size ▸ lt_size_of_live hlive
  refine ⟨?_, hbuilding, hactive'.trans (hpending.sited hc).block, hgiven.sound, ⟨_, hl'⟩, ⟨hgiven.dead, fun m i hmem => ?_,
    fun slot => ?_⟩, ⟨t, s, hout, fun o ho => ?_⟩, hprogrammed'.unreachable hactive'.symm hgiven.dead⟩
  · cases hfailure with
    | companion => exact .inl rfl
    | overrun => exact .inr ⟨_, rfl⟩
    | split => exact .inl rfl
  · have howner := ((hgiven.sound.registry.mem_bucket m i k.block).mp hmem).1
    exact absurd (hgiven.dead.symm.trans (live_iff.mpr ⟨m, howner⟩)) (by decide)
  · have hslot := hlinked.linkSlot_eq_of_not hgone slot
    refine ⟨hslot, ?_⟩
    rw [hlinked.entry k.block hlt slot, hslot]
    rfl
  · have hpaired := hsteady.sound.paired
    have hcomp : (s.cache.block o).isCompanion = true := by
      rw [hpaired.kind k.block o ho]
      exact congrArg not hsteady.ordinary
    have holt : o < c'.blocks.size := hgiven.evolves.size ▸ lt_size_of_live (hpaired.live o k.block (hpaired.symm k.block o ho))
    exact hgiven.sound.count_freeDescriptors holt (hgiven.part o ho) ((hclears.isCompanion o).trans hcomp)

/-- A page of zeros, and a processor that is ten bytes before its end. -/
def zerosCompilation : Compilation :=
  Machine.scantCompilation (Machine.onePage 0 []) { Cpu.flat32 with eip := 4086 } 4086

/-- Five additions to memory are too many for the arena. -/
theorem failed_compilation_cleared_overrun :
    ∃ (e : Engine Interpreter) (phase : Phase) (log : List Compilation) (record : List MonitorId) (k : Compilation)
      (written : Nat) (mem' : Memory) (c' : Cache) (code' : HostCode),
      Visits .free Interpreter.platform e phase log record ∧ k.cache = e.cache ∧ k.code = e.code ∧ k.Pending ∧
        k.result = .ok (.error (.overrun written k.room), mem', c', code') ∧ c'.building = none ∧ c'.Sound ∧
        (c'.block k.block).live = false ∧ ∀ m offset, c'.find m offset ≠ some k.block := by
  have htest : zerosCompilation.result.toOption.map Prod.fst = some (.error (.overrun 205 192)) := by decide +kernel
  obtain ⟨mem', c', code', hr⟩ : ∃ mem' c' code', zerosCompilation.result = .ok (.error (.overrun 205 192), mem', c', code') := by
    cases hresult : zerosCompilation.result with
    | error _ =>
        rw [hresult] at htest
        cases htest
    | ok r =>
        rw [hresult] at htest
        obtain ⟨r, mem', c', code'⟩ := r
        cases htest
        exact ⟨mem', c', code', rfl⟩
  have hpage : pageOf ({ Cpu.flat32 with eip := 4086 } : Cpu).ipLinear = 0 := by decide
  have hresolve := Machine.resolve_onePage 0 [] hpage
  have hhistory : Machine.History .free Interpreter.platform
      (Machine.scantMachine (Machine.onePage 0 []) { Cpu.flat32 with eip := 4086 }) [] := Machine.history_scantMachine _ trivial _
  obtain ⟨r, record, hres, hvisit⟩ := hhistory.visits (Interpreter.platform_confined _)
  obtain rfl : ⟨Machine.scantCache, Machine.scantCode⟩ = r := Option.some.inj hres
  have hvisit' := hvisit.search (Machine.codePage_scantCache hresolve rfl _)
  have hpending : zerosCompilation.Pending := (Machine.due_scantCompilation rfl hresolve rfl).toPending
  obtain ⟨hkind, hbuilding, -, hsound, -, ⟨hdead, -⟩, -, hfind, -⟩ :=
    (failed_compilation_cleared (Interpreter.platform_confined _) hvisit' (k := zerosCompilation) rfl rfl hpending hr).2 _ rfl
  obtain ⟨_, hoverrun⟩ := hkind.resolve_left (by simp)
  cases hoverrun
  exact ⟨_, _, _, _, zerosCompilation, 205, mem', c', code', hvisit', rfl, rfl, hpending, hr, hbuilding, hsound, hdead, hfind⟩

end Engine

end Recompiler
