import Recompiler.Compile.Block
import Recompiler.Proofs.Compile.Fetch
import Recompiler.Proofs.Cache.Close

/-! Compiling a block. The cache stays consistent provided the first instruction can be fetched, the new block is made
from what memory spells at the instruction pointer, and other blocks are at most cleared. -/

namespace Recompiler

open Cache Scan

variable {cpu : Cpu} {m : MonitorId} {mem mem' : Memory} {c c' : Cache}

/-! ### Opening a block -/

/-- A block was opened at the instruction pointer and registered; nothing of it is counted yet. -/
structure Sited (cpu : Cpu) (m : MonitorId) (c : Cache) (site : Site) (c' : Cache) : Prop where
  block : site.block = c.active
  cpu_eq : site.cpu = cpu
  page : site.page = (c.monitor m).page
  linearPage : site.linearPage = pageOf cpu.ipLinear
  monitor : site.monitor = m
  building : c'.building = some site.block
  active : c'.active = site.block
  start : (c'.block site.block).start = pageOffset cpu.ipLinear
  last : (c'.block site.block).last = pageOffset cpu.ipLinear
  owner : (c'.block site.block).owner = some m
  ordinary : (c'.block site.block).isCompanion = false
  mask : (c'.block site.block).mask = none
  single : (c'.block site.block).companion = none
  core_monitor : ∀ n, (c'.monitor n).core = (c.monitor n).core
  off : NarrowsOff (· = site.block) c { c' with building := c.building }
  sound : Sound c'
  exact : Exact c ∅ → Exact c' {site.block}
  capped : ∀ U, CappedAt c U → CappedAt c' fun i => insert site.block (U i)
  place : (c'.block site.block).place = (c.openBlock.2.block site.block).place
  other : ∀ x, x ≠ site.block → c'.block x = c.openBlock.2.block x

namespace Cache.NarrowsOff

variable {P : BlockId → Prop}

theorem building (h : NarrowsOff P c c') : c'.building = c.building := by
  have hfield := congrArg Cache.building h.fixed
  exact hfield

theorem settings (h : NarrowsOff P c c') : c'.settings = c.settings := by
  have hfield := congrArg Cache.settings h.fixed
  exact hfield

theorem active (h : NarrowsOff P c c') : c'.active = c.active := by
  have hfield := congrArg Cache.active h.fixed
  exact hfield

theorem evolves (h : NarrowsOff P c c') : Evolves P c c' :=
  ⟨congrArg (fun s : Cache => { s with active := 0, building := none }) h.fixed, h.size, h.tableSize, h.monitorsSize,
    h.core, h.station⟩

end Cache.NarrowsOff

theorem Sited.evolves {site : Site} (h : Sited cpu m c site c') : Evolves (· = site.block) c c' :=
  let ⟨hfixed, hsize, htable, hmonitors, hcore, hstation⟩ := h.off.evolves
  ⟨hfixed, hsize, htable, hmonitors, hcore, hstation⟩

/-- A descriptor without a block may say anything of its range. -/
theorem Cache.Sound.placeDead (h : Sound c) {id : BlockId} (hdead : (c.block id).live = false) (start last : Nat) :
    Sound (c.modifyBlock id fun b => { b with start := start, last := last }) := by
  have howner : (c.block id).owner = none := by simpa [Block.live] using hdead
  have hnone := h.paired.companion_of_dead hdead
  have hfield : ∀ {α : Type} (g : Block → α) (_ : ∀ b, g { b with start := start, last := last } = g b) (x : BlockId),
      g ((c.modifyBlock id fun b => { b with start := start, last := last }).block x) = g (c.block x) := fun g hg x =>
    map_block_modifyBlock c id x hg
  have hlive := hfield Block.live fun _ => rfl
  have hcomp := hfield Block.isCompanion fun _ => rfl
  obtain ⟨spans, free, hp⟩ := h.layout.pool
  refine ⟨h.toOrderly.rewriteDead hdead howner hnone, ⟨⟨spans, free, ?_⟩, ?_⟩, h.calm⟩
  · simp only [hfield Block.arenaNext fun _ => rfl, hfield Block.codeSize fun _ => rfl]
    exact hp.congr hlive hcomp (hfield Block.freeNext fun _ => rfl) (hfield Block.codeStart fun _ => rfl) rfl
      (size_modifyBlock ..) rfl rfl rfl
  · have hlinked : Linked (c.modifyBlock id fun b => { b with start := start, last := last }) c.Runnable :=
      Clearable.linked_modifyBlock h.layout.linked id (fun _ => rfl) fun _ => rfl
    refine hlinked.mono fun x hx => ?_
    rw [Runnable, hlive, hcomp]
    exact hx

theorem Cache.Exact.placeDead {E : Finset BlockId} (he : Exact c E) (h : Paired c) {id : BlockId}
    (hdead : (c.block id).live = false) (start last : Nat) :
    Exact (c.modifyBlock id fun b => { b with start := start, last := last }) E :=
  he.rewriteDead hdead (by simpa [Block.live] using hdead) h (h.companion_of_dead hdead)

theorem openSite_spec (h : Sound c) (hm : (c.monitor m).installed = true)
    (hfind : c.find m (pageOffset cpu.ipLinear) = none) :
    Sited cpu m c (Compile.openSite cpu m c).1 (Compile.openSite cpu m c).2 := by
  have hopen := openBlock_spec h
  unfold Compile.openSite
  generalize hr : c.openBlock = r at hopen
  obtain ⟨id, c₁⟩ := r
  dsimp only at hopen ⊢
  have hid := hopen.eq_active
  have hcore : ∀ n, (c₁.monitor n).core = (c.monitor n).core := hopen.shrinks.monitor
  have hnone := hopen.sound.paired.companion_of_dead hopen.dead
  have howner : (c₁.block id).owner = none := by simpa [Block.live] using hopen.dead
  have hactive : c₁.active = id := hopen.active
  have hidlt : id < c₁.blocks.size := by
    obtain ⟨spans, free, hp⟩ := hopen.sound.layout.pool
    exact hp.spans_lt id (hactive ▸ hp.active)
  have hplace := hopen.sound.placeDead hopen.dead (pageOffset cpu.ipLinear) (pageOffset cpu.ipLinear)
  have hexact := fun he : Exact c ∅ =>
    (hopen.exact he).placeDead hopen.sound.paired hopen.dead (pageOffset cpu.ipLinear) (pageOffset cpu.ipLinear)
  have hcapped := fun U (hcap : CappedAt c U) =>
    (hopen.capped U hcap).rewriteDead (f := fun b => { b with start := pageOffset cpu.ipLinear, last := pageOffset cpu.ipLinear })
      hopen.dead howner
  have hself := block_modifyBlock_self hidlt fun b =>
    { b with start := pageOffset cpu.ipLinear, last := pageOffset cpu.ipLinear }
  have hother : ∀ x, x ≠ id → (c₁.modifyBlock id fun b =>
      { b with start := pageOffset cpu.ipLinear, last := pageOffset cpu.ipLinear }).block x = c₁.block x := fun x hx =>
    block_modifyBlock_ne c₁ hx _
  have hsame := ShellSame.modifyBlock c₁ id fun b =>
    { b with start := pageOffset cpu.ipLinear, last := pageOffset cpu.ipLinear }
  have hmonitor : ∀ n, (c₁.modifyBlock id fun b =>
      { b with start := pageOffset cpu.ipLinear, last := pageOffset cpu.ipLinear }).monitor n = c₁.monitor n := fun _ => rfl
  generalize (c₁.modifyBlock id fun b =>
    { b with start := pageOffset cpu.ipLinear, last := pageOffset cpu.ipLinear }) = c₂ at *
  have hinst : (c₂.monitor m).installed = true := by
    rw [hmonitor, Monitor.installed_eq_of_core (hcore m)]
    exact hm
  have he : Enlistable c₂ m id (c₂.bucketOf (c₂.block id).start) := by
    refine ⟨hsame.size ▸ hidlt, by rw [hself]; exact hopen.dead, hinst, ?_, by rw [hself], by rw [hself]; exact pageOffset_lt _,
      fun _ => rfl, fun h0 => ?_, fun _ x hx hord => ?_⟩
    · rw [hplace.registry.bucketCount m (lt_size_of_installed hinst), hself]
      exact bucketOf_lt hplace.valid (pageOffset_lt _)
    · exact absurd (Nat.add_eq_zero_iff.mp h0).1 Nat.one_ne_zero
    · have hxid : x ≠ id := by
        rintro rfl
        rw [hself] at hx
        exact absurd (howner.symm.trans hx) (by simp)
      rw [hother x hxid] at hx hord ⊢
      rw [hself]
      have hxcore := hopen.shrinks.core x (live_iff.mpr ⟨m, hx⟩)
      have hxowner : (c.block x).owner = some m := (Block.owner_eq_of_core hxcore).symm.trans hx
      have hxord : (c.block x).isCompanion = false := (Block.isCompanion_eq_of_core hxcore).symm.trans hord
      have hstart : (c₁.block x).start = (c.block x).start := Block.start_eq_of_core hxcore
      rw [hstart]
      exact find_eq_none h.registry hfind hxowner hxord
  have hadd : Sound (c₂.addBlock m id) := hplace.addBlock he (hsame.active.trans hactive)
  have hadd' : Exact c ∅ → Exact (c₂.addBlock m id) {id} := fun hc => (hexact hc).addBlock hplace.paired he
  have hadd'' : ∀ U, CappedAt c U → CappedAt (c₂.addBlock m id) fun i => insert id (U i) := fun U hc =>
    (hcapped U hc).enlist he
  have hblock : ∀ x, (c₂.addBlock m id).block x = if x = id then
      { c₂.block x with owner := some m, bucket := c₂.bucketOf (c₂.block id).start } else c₂.block x :=
    fun x => block_enlist he.lt m _ x
  have hcore' : ∀ n, ((c₂.addBlock m id).monitor n).core = (c.monitor n).core := fun n =>
    (core_monitor_enlist c₂ m id _ n).trans ((congrArg Monitor.core (hmonitor n)).trans (hcore n))
  have hsame' : ShellSame c₁ (c₂.addBlock m id) :=
    hsame.trans ((ShellSame.modifyMonitor c₂ m _).trans (.modifyBlock _ id _))
  generalize c₂.addBlock m id = c₃ at *
  have hnew : c₃.block id =
      { c₁.block id with
        start := pageOffset cpu.ipLinear, last := pageOffset cpu.ipLinear, owner := some m
        bucket := c₂.bucketOf (c₂.block id).start } := by
    rw [hblock, if_pos rfl, hself]
  have hold : ∀ x, x ≠ id → c₃.block x = c₁.block x := fun x hx => by rw [hblock, if_neg hx, hother x hx]
  refine ⟨hid, rfl, Monitor.page_eq_of_core (hcore' m), rfl, rfl, hsame'.building.trans hopen.building,
    hsame'.active.trans hactive, by rw [hnew], by rw [hnew], by rw [hnew], ?_, by rw [hnew]; exact hopen.mask,
    by rw [hnew]; exact hnone, hcore', ?_, hadd, hadd', hadd'', by rw [hr, hnew]; rfl, by rw [hr]; exact hold⟩
  · rw [hnew]
    simp [Block.isCompanion, bucketOf]
  · have hshell : ({ c₃ with building := c.building } : Cache).shell = c.shell := by
      have h1 := congrArg (fun s : Cache => { s with building := c.building }) hsame'.shell
      exact h1.trans hopen.shrinks.same.shell
    refine ⟨congrArg offPages hshell, hsame'.size.trans hopen.shrinks.same.size,
      hsame'.tableSize.trans hopen.shrinks.same.tableSize, hsame'.monitorsSize.trans hopen.shrinks.same.monitorsSize,
      fun x hx hlive => ?_, fun x n _ _ => Monitor.station_eq_of_core (hcore' n)⟩
    change (c₃.block x).live = true at hlive
    change (c₃.block x).core = (c.block x).core
    rw [hold x hx] at hlive ⊢
    exact hopen.shrinks.core x hlive

namespace Sited

variable {site : Site}

theorem station (h : Sited cpu m c site c') : (c'.monitor m).station = (c.monitor m).station :=
  Monitor.station_eq_of_core (h.core_monitor m)

/-- Where pages are not remapped, the scan starts out with the block uncounted. -/
theorem scanning (h : Sited cpu m c site c') (hc : Exact c ∅) {mem : Memory} (hmapped : mem.mapped = []) :
    Scanning site {site.block} { cache := c', mem } where
  consistent := ⟨h.sound, h.exact hc⟩
  mapped := hmapped
  uncounted x hx := .inl (by simpa using hx)
  owner := h.monitor ▸ h.owner
  ordinary := h.ordinary
  page := by
    rw [h.monitor, h.page]
    exact Monitor.page_eq_of_core (h.core_monitor m)
  maskStart mask hmask := by
    rw [h.mask] at hmask
    cases hmask
  maskLast i hi := by
    rw [Block.masked, h.mask] at hi
    cases hi
  single _ := h.single
  second o ho := by cases ho

theorem cursor (h : Sited cpu m c site c') (mem : Memory) :
    Cursor site {site.block} { cache := c', mem } (site.cpu.base .cs + cpu.eip) := by
  have hip : site.cpu.base .cs + cpu.eip = cpu.ipLinear := by rw [h.cpu_eq]; rfl
  refine .inl ⟨?_, rfl, .inl ⟨by simp, ?_, ?_, h.mask⟩⟩
  · rw [hip, h.linearPage]
  · rw [hip]
    exact h.start
  · rw [hip]
    exact h.last

end Sited

/-! ### Closing it -/

theorem Cache.Closed.part {id : BlockId} {written : Nat} (h : Closed id written c c') {x : BlockId} (hx : c.Part id x) :
    c'.Part id x ∧ (c'.block x).claim = (c.block x).claim := by
  have hcomp : (c'.block id).companion = (c.block id).companion := Block.companion_eq_of_tenant h.kept.tenant
  refine ⟨hx.imp_right fun hb => hcomp.trans hb, ?_⟩
  by_cases hxid : x = id
  · rw [hxid]
    exact Block.claim_eq_of_tenant h.kept.tenant
  · have hxcomp : (c'.block id).companion = some x := hcomp.trans (hx.resolve_left hxid)
    have hlive := h.sound.paired.live _ _ (h.sound.paired.symm _ _ hxcomp)
    exact Block.claim_eq_of_core (h.kept.core x hxid hlive)

/-- Closing a block changes nothing it was made from. -/
theorem Cache.Closed.recorded {site : Site} {written : Nat} (h : Closed site.block written c c') {f : Fetched}
    (hf : Recorded site mem c f) : Recorded site mem c' f := by
  have hself := (h.part (c.part_self site.block)).2
  refine ⟨hf.spelled, hf.hotImm, fun i hi => ?_, fun i hi hread => hf.reads i hi ?_⟩
  · obtain ⟨x, m, hx, hm, hpage, hstart, hlast⟩ := hf.guards i hi
    obtain ⟨hx', hclaim⟩ := h.part hx
    exact ⟨x, m, hx', (Block.owner_eq_of_claim hclaim).trans hm, (congrArg Monitor.page (h.kept.monitor m)).trans hpage,
      (Block.start_eq_of_claim hclaim).symm ▸ hstart, (Block.last_eq_of_claim hclaim).symm ▸ hlast⟩
  · obtain ⟨m, hm, hpage, hmask⟩ := hread
    rw [h.kept.monitor] at hpage
    exact ⟨m, (Block.owner_eq_of_claim hself).symm.trans hm, hpage,
      (Block.masked_eq_of_claim hself _).symm.trans hmask⟩

/-- What emitting the open block does. -/
theorem emit_spec (h : Sound c) {id : BlockId} (hlive : (c.block id).live = true) (hbuilding : c.building = some id)
    (hactive : c.active = id) {labels : Nat} {ops : List MicroOp} {code code' : HostCode} {r : Except CoreError BlockId}
    (hemit : Compile.emit id labels ops c code = .ok (r, c', code')) :
    (∃ e, r = .error e) ∧ GivenUp id c c' ∨
      r = .ok id ∧ ∃ written, Closed id written c c' ∧
        code.emitBlock (c.block id).codeStart (c.capacity id) labels ops = .ok (.ok written, code') := by
  unfold Compile.emit at hemit
  split at hemit
  · cases hemit
  · rename_i e code₁ _
    cases hemit
    refine .inl ⟨⟨_, rfl⟩, ?_⟩
    rw [abandon, hbuilding]
    dsimp only
    rw [clearIfLive, if_pos (show ({ c with building := none } : Cache).block id |>.live from hlive)]
    exact givenUp_clearBlock h hlive
  · rename_i written code₁ hcode
    rw [closeBlock, hbuilding] at hemit
    dsimp only at hemit
    generalize hfin : c.finish id written = fin at hemit
    obtain ⟨r₁, c₁⟩ := fin
    cases r₁ with
    | error e =>
        cases hemit
        rw [finish_error hfin]
        exact .inl ⟨⟨_, rfl⟩, givenUp_clearBlock h hlive⟩
    | ok u =>
        cases hemit
        exact .inr ⟨rfl, written, finish_spec h hactive hfin, hcode⟩

/-! ### The compilation as a whole -/

/-- A request to compile: all the outcome depends on. -/
structure Compilation where
  cpu : Cpu
  monitor : MonitorId
  mem : Memory
  cache : Cache
  code : HostCode

namespace Compilation

variable (k : Compilation)

/-- Where the block is opened. -/
def site : Site :=
  (Compile.openSite k.cpu k.monitor k.cache).1

/-- The scan before its first instruction. -/
def scan : Scan :=
  { cache := (Compile.openSite k.cpu k.monitor k.cache).2, mem := k.mem }

/-- The block the outcome is compiled into. -/
def block : BlockId :=
  k.site.block

/-- Whether the first instruction could be decoded. -/
def decodes : Bool :=
  gathers k.site k.cpu.eip k.scan

/-- The trace and the scan after its last instruction. -/
def outcome : Except Abort (Except CoreError Trace × Scan) :=
  Scan.take k.site (Compile.limit k.scan.cache.settings) k.cpu.eip k.scan

/-- The trace. -/
def trace : Trace :=
  match k.outcome with
  | .ok (.ok t, _) => t
  | _ => ⟨[], .unfetchable k.cpu.eip⟩

/-- The block is missing, on a page that is watched for its kind of code. -/
structure Pending : Prop where
  installed : (k.cache.monitor k.monitor).installed = true
  page : ∃ paddr, k.mem.resolve k.cpu.ipLinear false = .ok paddr ∧ (k.cache.monitor k.monitor).page = pageOf paddr
  code32 : (k.cache.monitor k.monitor).code32 = k.cpu.codeBig
  absent : k.cache.find k.monitor (pageOffset k.cpu.ipLinear) = none

/-- The block is missing, pages are not remapped, and the write maps are right. -/
structure Due : Prop extends Pending k where
  consistent : k.cache.Consistent ∅
  mapped : k.mem.mapped = []

/-- The compilation made a block. -/
structure Made (c' : Cache) : Prop where
  owner : (c'.block k.block).owner = some k.monitor
  ordinary : (c'.block k.block).isCompanion = false
  start : (c'.block k.block).start = pageOffset k.cpu.ipLinear
  station : (c'.monitor k.monitor).station = (k.cache.monitor k.monitor).station
  evolves : Evolves (c'.Part k.block) k.cache c'
  unmasked : ∀ o, (c'.block k.block).companion = some o → (c'.block o).mask = none
  follows : Follows k.cpu.codeBig k.cpu.eip k.trace.insts k.trace.stop
  nonempty : k.trace.insts ≠ []
  recorded : ∀ f ∈ k.trace.insts, Recorded k.site k.mem c' f

variable {k}

/-- Linear pages are physical pages where nothing is remapped. -/
theorem Pending.page_eq (h : k.Pending) (hmap : k.mem.mapped = []) :
    (k.cache.monitor k.monitor).page = pageOf k.cpu.ipLinear := by
  obtain ⟨paddr, hpaddr, hpage⟩ := h.page
  rw [hpage, Memory.resolve_eq_of_ok hmap hpaddr]

theorem Due.page_eq (h : k.Due) : (k.cache.monitor k.monitor).page = pageOf k.cpu.ipLinear :=
  h.toPending.page_eq h.mapped

theorem Pending.sited (h : k.Pending) (hc : k.cache.Sound) : Sited k.cpu k.monitor k.cache k.site k.scan.cache :=
  openSite_spec hc h.installed h.absent

theorem sited (h : k.Due) : Sited k.cpu k.monitor k.cache k.site k.scan.cache :=
  h.toPending.sited h.consistent.toSound

theorem traced (h : k.Due) {r : Except CoreError Trace} {s : Scan} (hr : k.outcome = .ok (r, s)) :
    Traced k.site {k.block} k.cpu.eip k.mem k.scan r s := by
  have hsite := sited h
  have hpage : k.site.page = k.site.linearPage := by rw [hsite.page, h.page_eq, hsite.linearPage]
  exact (hsite.scanning h.consistent.toExact h.mapped).take _ hpage (hsite.cursor k.mem) rfl hr

/-- The cursor and the open block are as they were when the block was opened. -/
theorem open_outcome (h : k.Due) {r : Except CoreError Trace} {s : Scan} (hr : k.outcome = .ok (r, s)) :
    s.cache.building = some k.block ∧ s.cache.active = k.block := by
  have hoff := (traced h hr).progress.off
  exact ⟨hoff.building.trans (sited h).building, hoff.active.trans (sited h).active⟩

theorem evolves_outcome (h : k.Due) {r : Except CoreError Trace} {s : Scan} (hr : k.outcome = .ok (r, s)) :
    Evolves (Involved k.site s) k.cache s.cache := by
  have hopened : Evolves (· = k.block) k.cache k.scan.cache := (sited h).evolves
  have hscanned := (traced h hr).progress.off.evolves
  exact hopened.trans hscanned fun x hx _ hxb => hx (.inl hxb)

/-- The parts of the new block are what the scan worked on. -/
theorem involved_iff {s : Scan} (hscan : Scanning k.site ∅ s) {x : BlockId} : Involved k.site s x ↔ s.cache.Part k.block x := by
  refine or_congr Iff.rfl ⟨fun ⟨o, ho, hx⟩ => hx ▸ (hscan.second o ho).1, fun hx => ?_⟩
  cases ho : s.companion with
  | none => exact absurd (hx.symm.trans (hscan.single ho)) (by simp)
  | some o => exact ⟨o, rfl, Option.some.inj (hx.symm.trans (hscan.second o ho).1)⟩

theorem evolves_givenUp (h : k.Due) {r : Except CoreError Trace} {s : Scan} (hr : k.outcome = .ok (r, s))
    (hscan : Scanning k.site ∅ s) {c' : Cache} (hg : GivenUp k.block s.cache c') : Evolves (fun _ => False) k.cache c' := by
  refine (evolves_outcome h hr).trans hg.evolves fun x _ hlive hx => ?_
  rcases (involved_iff hscan).mp hx with rfl | hcomp
  · exact absurd (hg.dead.symm.trans hlive) (by simp)
  · exact absurd ((hg.part x hcomp).symm.trans hlive) (by simp)

end Compilation

/-- What the compilation gives, with memory, cache and host code after it. -/
def Compilation.result (k : Compilation) : Except Abort (Except CoreError BlockId × Memory × Cache × HostCode) :=
  Compile.createBlock k.cpu k.monitor k.mem k.cache k.code

theorem Compilation.result_eq (k : Compilation) :
    k.result =
      match k.outcome with
      | .error abort => .error abort
      | .ok (.error e, s) => .ok (.error e, s.mem, s.cache.abandon, k.code)
      | .ok (.ok t, s) =>
        match Compile.emit k.block (Lowering.labels t) (Lowering.block (Compile.context k.cpu k.block) t) s.cache k.code with
        | .error abort => .error abort
        | .ok (r, cache, code) => .ok (r, s.mem, cache, code) := by
  unfold Compilation.result Compile.createBlock Compilation.outcome Compilation.block Compilation.site Compilation.scan
  generalize Compile.openSite k.cpu k.monitor k.cache = opened
  obtain ⟨site, cache⟩ := opened
  dsimp only
  generalize Scan.take site (Compile.limit cache.settings) k.cpu.eip { cache, mem := k.mem } = out
  match out with
  | .error _ => rfl
  | .ok (.error _, _) => rfl
  | .ok (.ok _, _) => rfl

open Compilation in
theorem createBlock_spec {k : Compilation} (h : k.Due) (hdec : k.decodes = true) {code' : HostCode}
    {r : Except CoreError BlockId} (hr : k.result = .ok (r, mem', c', code')) :
    Consistent c' ∅ ∧ mem'.unreleased = k.mem.unreleased ∧
      ((∃ e, r = .error e) ∧ Evolves (fun _ => False) k.cache c' ∧ (c'.block k.block).live = false ∨
        r = .ok k.block ∧ k.Made c') := by
  have hsite := sited h
  rw [result_eq] at hr
  split at hr
  · cases hr
  · rename_i e s hout
    cases hr
    have htraced := traced h hout
    have hscan := htraced.counted hdec
    obtain ⟨hbuilding, -⟩ := open_outcome h hout
    have hgiven : GivenUp k.block s.cache s.cache.abandon := by
      rw [abandon, hbuilding]
      dsimp only
      rw [clearIfLive, if_pos (show ({ s.cache with building := none } : Cache).block k.block |>.live from hscan.live)]
      exact givenUp_clearBlock hscan.consistent.toSound hscan.live
    exact ⟨⟨hgiven.sound, hgiven.exact hscan.consistent.toExact⟩, htraced.progress.memory, .inl ⟨⟨e, rfl⟩, evolves_givenUp h hout hscan hgiven, hgiven.dead⟩⟩
  · rename_i t s hout
    have htraced := traced h hout
    have hscan := htraced.counted hdec
    obtain ⟨hbuilding, hactive⟩ := open_outcome h hout
    have htrace : k.trace = t := by rw [trace, hout]
    split at hr
    · cases hr
    · rename_i r₁ c₁ code₁ hemit
      cases hr
      rcases emit_spec hscan.consistent.toSound hscan.live hbuilding hactive hemit with ⟨herr, hgiven⟩ | ⟨rfl, written, hclosed, -⟩
      · exact ⟨⟨hgiven.sound, hgiven.exact hscan.consistent.toExact⟩, htraced.progress.memory, .inl ⟨herr, evolves_givenUp h hout hscan hgiven, hgiven.dead⟩⟩
      · refine ⟨⟨hclosed.sound, hclosed.exact ∅ hscan.consistent.toExact⟩, htraced.progress.memory, .inr ⟨rfl, ?_⟩⟩
        obtain ⟨-, hself⟩ := hclosed.part (s.cache.part_self k.block)
        have hcomp := Block.companion_eq_of_tenant hclosed.kept.tenant
        have hevolves : Evolves (c'.Part k.block) s.cache c' := by
          refine ⟨hclosed.idle ▸ rfl, hclosed.kept.size, hclosed.kept.tableSize, hclosed.kept.monitorsSize,
            fun x hx hlive => ?_, fun x n _ _ => ?_⟩
          · exact hclosed.kept.core x (fun hxid => hx (.inl hxid)) hlive
          · rw [hclosed.kept.monitor]
        refine ⟨(Block.owner_eq_of_claim hself).trans hscan.owner, (Block.isCompanion_eq_of_claim hself).trans hscan.ordinary,
          (Block.start_eq_of_claim hself).trans (htraced.progress.start.trans hsite.start),
          ?_, (evolves_outcome h hout).trans hevolves fun x hx _ hinv => hx ?_, fun o ho => ?_, ?_, ?_, fun f hf => ?_⟩
        · rw [hclosed.kept.monitor]
          exact htraced.progress.station.trans hsite.station
        · exact (hclosed.part ((involved_iff hscan).mp hinv)).1
        · have hpart : s.cache.Part k.block o := .inr (hcomp.symm.trans ho)
          rw [Block.mask_eq_of_claim (hclosed.part hpart).2]
          rcases (involved_iff hscan).mpr hpart with rfl | ⟨o', ho', rfl⟩
          · exact absurd (hclosed.sound.paired.kind _ _ ho) (by simp [Compilation.block])
          · exact (hscan.second o' ho').2.2.2
        · rw [htrace, ← hsite.cpu_eq]
          exact htraced.follows t rfl
        · rw [htrace, ← htraced.nonempty t rfl]
          exact hdec
        · exact hclosed.recorded (htraced.recorded t rfl f (htrace ▸ hf))

end Recompiler
