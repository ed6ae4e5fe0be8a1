import Recompiler.Proofs.Cache.Frame
import Recompiler.Proofs.Code.Window
import Recompiler.Proofs.Compile.Create

/-! Compiling a block, whatever pages its code is on. The cache stays sound, other blocks are at most cleared, and host code
is written to the span that was opened for the block and nowhere else. -/

namespace Recompiler

open Cache

theorem Cache.capacity_eq_of_place {c c' : Cache} {id : BlockId} (h : (c'.block id).place = (c.block id).place)
    (hsettings : c'.settings = c.settings) : c'.capacity id = c.capacity id := by
  have hsize : (c'.block id).codeSize = (c.block id).codeSize := congrArg (fun p => p.2.1) h
  have hnext : (c'.block id).arenaNext = (c.block id).arenaNext := congrArg (fun p => p.2.2) h
  rw [capacity, capacity, hsize, hnext, hsettings]

/-! ### Windows of host code -/

section Window

variable {c : Cache} {spans free : List BlockId} {loose : Option BlockId} {x y : BlockId}
  (h : c.Pool (fun b => (c.block b).arenaNext) (fun b => (c.block b).codeSize) spans free loose)
include h

/-- The code of a span ends before a later span begins: only the last span may use the slack. -/
theorem Cache.Pool.end_le_start {before after : List BlockId} (hspans : spans = before ++ x :: after) (hy : y ∈ after) :
    (c.block x).codeStart + c.capacity x ≤ (c.block y).codeStart := by
  subst hspans
  obtain ⟨mid, -, -, hafter⟩ := Path.append_iff.mp h.spanPath
  have hcapacity : c.capacity x = (c.block x).codeSize := by
    cases hnext : (c.block x).arenaNext with
    | none =>
        cases after with
        | nil => exact absurd hy (by simp)
        | cons z rest =>
            have hsome := hnext.symm.trans hafter.1
            exact absurd hsome (by simp)
    | some z => rw [capacity, hnext]
  have hpairs := List.pairwise_append.mp h.tiled.pairwise
  rw [hcapacity]
  exact (List.pairwise_cons.mp hpairs.2.1).1 y hy

/-- No two spans have a byte of host code in common. -/
theorem Cache.Pool.apart_windows (hx : x ∈ spans) (hy : y ∈ spans) (hne : x ≠ y) :
    (c.block x).codeStart + c.capacity x ≤ (c.block y).codeStart ∨
      (c.block y).codeStart + c.capacity y ≤ (c.block x).codeStart := by
  obtain ⟨before, after, hspans⟩ := List.append_of_mem hx
  have hy' : y ∈ before ∨ y ∈ after := by
    rw [hspans, List.mem_append, List.mem_cons] at hy
    rcases hy with hy | rfl | hy
    · exact .inl hy
    · exact absurd rfl hne
    · exact .inr hy
  rcases hy' with hy' | hy'
  · obtain ⟨first, second, rfl⟩ := List.append_of_mem hy'
    have hsplit : spans = first ++ y :: (second ++ x :: after) := by simpa using hspans
    exact .inr (h.end_le_start hsplit (by simp))
  · exact .inl (h.end_le_start hspans hy')

/-- Host code ends at the end of the slack at the latest. -/
theorem Cache.Pool.end_le (hx : x ∈ spans) :
    (c.block x).codeStart + c.capacity x ≤ c.blocksStart + c.settings.cacheSize + c.settings.maxBlockSize := by
  obtain ⟨-, -, hend⟩ := h.tiled.bounds hx
  have hcapacity : c.capacity x ≤ (c.block x).codeSize + c.settings.maxBlockSize := by
    unfold capacity
    dsimp only
    split <;> omega
  omega

end Window

namespace Scan

variable {site : Site} {s s' s'' : Scan}

/-- The state of a scan, wherever its pages are. -/
structure Steady (site : Site) (s : Scan) : Prop where
  sound : s.cache.Sound
  owner : (s.cache.block site.block).owner = some site.monitor
  ordinary : (s.cache.block site.block).isCompanion = false
  page : (s.cache.monitor site.monitor).page = site.page
  code32 : (s.cache.monitor site.monitor).code32 = site.cpu.codeBig
  single : s.companion = none → (s.cache.block site.block).companion = none
  second : ∀ o, s.companion = some o → (s.cache.block site.block).companion = some o.block
  secondOwner : ∀ o, s.companion = some o → (s.cache.block o.block).owner = some o.monitor
  secondCode32 : ∀ o, s.companion = some o → (s.cache.monitor o.monitor).code32 = site.cpu.codeBig

theorem Steady.live (h : Steady site s) : (s.cache.block site.block).live = true :=
  live_iff.mpr ⟨_, h.owner⟩

/-- What a scan leaves alone, wherever its pages are. -/
structure Drift (site : Site) (s s' : Scan) : Prop where
  companion : ∀ o, s.companion = some o → s'.companion = some o
  off : NarrowsOff (Involved site s') s.cache s'.cache
  place : (s'.cache.block site.block).place = (s.cache.block site.block).place
  start : (s'.cache.block site.block).start = (s.cache.block site.block).start

namespace Drift

theorem refl (site : Site) (s : Scan) : Drift site s s :=
  ⟨fun _ ho => ho, .of_narrows (.refl _) _, rfl, rfl⟩

theorem trans (h : Drift site s s') (h' : Drift site s' s'') : Drift site s s'' where
  companion o ho := h'.companion o (h.companion o ho)
  off := h.off.trans h'.off fun _ hx => hx.imp_right fun ⟨o, ho, hxo⟩ => ⟨o, h'.companion o ho, hxo⟩
  place := h'.place.trans h.place
  start := h'.start.trans h.start

end Drift

/-- A part of a scan keeps it going. -/
def Steadies (site : Site) (s s' : Scan) : Prop :=
  Steady site s' ∧ Drift site s s'

theorem Steadies.trans (h : Steadies site s s') (h' : Steadies site s' s'') : Steadies site s s'' :=
  ⟨h'.1, h.2.trans h'.2⟩

namespace Steady

theorem refl (h : Steady site s) : Steadies site s s :=
  ⟨h, .refl site s⟩

/-! ### Taking in bytes -/

/-- A byte is taken in by the block or its companion. -/
theorem takeByte (h : Steady site s) {x : BlockId} (hx : Involved site s x) (m : MonitorId) (hot : Bool) (linear : UInt32) :
    Steadies site s ⟨s.cache.takeByte m x hot (pageOffset linear), s.mem, s.companion⟩ := by
  have hsound := h.sound.takeByte m x hot (pageOffset_lt linear)
  have hsame := ShellSame.takeByte s.cache m x hot (pageOffset linear)
  have hcore := core_monitor_takeByte s.cache m x hot (pageOffset linear)
  have hother : ∀ y, y ≠ x → (s.cache.takeByte m x hot (pageOffset linear)).block y = s.cache.block y := fun y hy =>
    block_takeByte_ne hy s.cache m hot (pageOffset linear)
  have hfield : ∀ {α : Type} (g : Block → α) (_ : ∀ b last mask, g { b with last := last, mask := mask } = g b) (y : BlockId),
      g ((s.cache.takeByte m x hot (pageOffset linear)).block y) = g (s.cache.block y) := fun g hg y =>
    map_block_takeByte hg s.cache m x hot (pageOffset linear) y
  have hcompanion := hfield Block.companion fun _ _ _ => rfl
  have howner := hfield Block.owner fun _ _ _ => rfl
  generalize s.cache.takeByte m x hot (pageOffset linear) = c' at *
  refine ⟨⟨hsound, (howner _).trans h.owner, (hfield Block.isCompanion (fun _ _ _ => rfl) _).trans h.ordinary,
    (Monitor.page_eq_of_core (hcore _)).trans h.page, (Monitor.code32_eq_of_core (hcore _)).trans h.code32,
    fun hnone => (hcompanion _).trans (h.single hnone), fun o ho => (hcompanion _).trans (h.second o ho),
    fun o ho => (howner _).trans (h.secondOwner o ho), fun o ho => (Monitor.code32_eq_of_core (hcore _)).trans (h.secondCode32 o ho)⟩,
    fun _ ho => ho, ⟨congrArg offPages hsame.shell, hsame.size, hsame.tableSize, hsame.monitorsSize, fun y hy _ => ?_,
      fun _ n _ _ => Monitor.station_eq_of_core (hcore n)⟩, hfield Block.place (fun _ _ _ => rfl) _,
    hfield Block.start (fun _ _ _ => rfl) _⟩
  rw [hother y]
  rintro rfl
  exact hy hx

theorem coverByte (h : Steady site s) (masked : Nat → Bool) (linear : UInt32) :
    Steadies site s (s.coverByte site masked linear) := by
  by_cases hpage : pageOf linear = site.linearPage
  · rw [coverByte_first hpage]
    exact h.takeByte (.inl rfl) site.monitor _ linear
  · cases ho : s.companion with
    | some o =>
        rw [coverByte_second hpage ho]
        exact h.takeByte (.inr ⟨o, ho, rfl⟩) o.monitor false linear
    | none =>
        obtain ⟨cache, mem, companion⟩ := s
        obtain rfl : companion = none := ho
        simp only [Scan.coverByte, hpage, if_false]
        exact h.refl

theorem coverBytes (h : Steady site s) (masked : Nat → Bool) (linear : UInt32) (offsets : List Nat) :
    Steadies site s (offsets.foldl (fun s i => s.coverByte site masked (linear + i.toUInt32)) s) := by
  induction offsets generalizing s with
  | nil => exact h.refl
  | cons i offsets ih =>
      rw [List.foldl_cons]
      have hbyte := h.coverByte masked (linear + i.toUInt32)
      exact hbyte.trans (ih hbyte.1)

/-! ### The second page -/

/-- Looking for the second page leaves the block alone. -/
theorem paged (h : Steady site s) (hnone : s.companion = none) {page : UInt32} {code32 : Bool} {mem' : Memory} {c' : Cache}
    (hp : Paged (some site.monitor) page code32 s.mem s.cache mem' c') : Steadies site s ⟨c', mem', none⟩ := by
  have hlive := hp.alone site.block site.monitor rfl h.owner (h.single hnone)
  have hcore := hp.narrows.core site.block hlive
  have howner : (c'.block site.block).owner = some site.monitor := (Block.owner_eq_of_core hcore).trans h.owner
  have hstation := hp.narrows.station site.block site.monitor howner
  refine ⟨⟨hp.sound, howner, (Block.isCompanion_eq_of_core hcore).trans h.ordinary,
    (congrArg Prod.fst hstation).trans h.page, (congrArg (fun s => s.2.2) hstation).trans h.code32,
    fun _ => (Block.companion_eq_of_core hcore).trans (h.single hnone), by simp, by simp, by simp⟩, fun o ho => ?_,
    .of_narrows hp.narrows _, Block.place_eq_of_core hcore, Block.start_eq_of_core hcore⟩
  rw [hnone] at ho
  cases ho

/-- A companion is created for a block that has none. -/
theorem join (h : Steady site s) (hnone : s.companion = none) {o : Companion} (hm : (s.cache.monitor o.monitor).installed = true)
    (hcode : (s.cache.monitor o.monitor).code32 = site.cpu.codeBig) {d : Cache} (ha : Allocated s.cache o.block d) :
    Steadies site s ⟨(d.addCompanion o.monitor o.block).pair site.block o.block, s.mem, some o⟩ := by
  have hne : site.block ≠ o.block := by
    intro heq
    have hlive := h.live
    rw [heq, ha.dead] at hlive
    cases hlive
  have hblock := ha.block site.block hne
  have hlive : (d.block site.block).live = true := by rw [hblock]; exact h.live
  have hpair : Pairable d o.monitor site.block :=
    ⟨by rw [ha.monitor]; exact hm, hlive, by rw [hblock]; exact h.ordinary, by rw [hblock]; exact h.single hnone⟩
  have hsound := ha.unlisted.pair hpair
  have hb := ha.unlisted.block_pair hlive o.monitor
  have hcore : ∀ n, (((d.addCompanion o.monitor o.block).pair site.block o.block).monitor n).core = (s.cache.monitor n).core := fun n =>
    (ha.unlisted.core_monitor_pair o.monitor site.block n).trans (by rw [ha.monitor])
  have hsame := ha.shrinks.same.trans (ShellSame.addCompanion_pair d o.monitor site.block o.block)
  generalize (d.addCompanion o.monitor o.block).pair site.block o.block = e at *
  have hself : e.block site.block = { s.cache.block site.block with companion := some o.block } := by
    rw [hb, if_neg hne, if_pos rfl, hblock]
  refine ⟨⟨hsound, by rw [hself]; exact h.owner, by rw [hself]; exact h.ordinary, (Monitor.page_eq_of_core (hcore _)).trans h.page,
    (Monitor.code32_eq_of_core (hcore _)).trans h.code32, by simp, fun o' ho' => ?_, fun o' ho' => ?_, fun o' ho' => ?_⟩,
    fun o' ho' => ?_, ⟨congrArg offPages hsame.shell, hsame.size, hsame.tableSize,
      hsame.monitorsSize, fun x hx _ => ?_, fun _ n _ _ => Monitor.station_eq_of_core (hcore n)⟩, by rw [hself]; rfl,
    by rw [hself]⟩
  · obtain rfl : o = o' := Option.some.inj ho'
    rw [hself]
  · obtain rfl : o = o' := Option.some.inj ho'
    rw [hb, if_pos rfl]
  · obtain rfl : o = o' := Option.some.inj ho'
    exact (Monitor.code32_eq_of_core (hcore _)).trans hcode
  · rw [hnone] at ho'
    cases ho'
  · have hxo : x ≠ o.block := fun hxo => hx (.inr ⟨o, rfl, hxo⟩)
    rw [hb, if_neg hxo, if_neg fun hxs => hx (.inl hxs), ha.block x hxo]

/-- The search for the second page cannot withdraw the block's own monitor, which watches for its kind of code. -/
theorem codePage {cache c' : Cache} {mem mem' : Memory} (h : Steady site ⟨cache, mem, none⟩)
    {r : Except PageFault (Option MonitorId)}
    (hsearch : cache.codePage mem (pageBase (site.linearPage + 1)) site.cpu.codeBig (some site.monitor) = .ok (r, mem', c')) :
    (∃ page, Paged (some site.monitor) page site.cpu.codeBig mem cache mem' c') ∧
      ∀ m, r = .ok (some m) → (c'.monitor m).installed = true ∧ (c'.monitor m).code32 = site.cpu.codeBig := by
  have hkeep : ∀ paddr, mem.resolve (pageBase (site.linearPage + 1)) false = .ok paddr → ∀ m,
      cache.monitorOf (pageOf paddr) = some m → (cache.monitor m).code32 ≠ site.cpu.codeBig → some site.monitor ≠ some m := by
    intro paddr _ m _ hcode heq
    obtain rfl := Option.some.inj heq
    exact hcode h.code32
  rcases codePage_spec h.sound hkeep hsearch with ⟨fault, -, rfl, rfl, rfl⟩ | ⟨paddr, -, hp, hm⟩
  · exact ⟨⟨0, .refl h.sound⟩, by simp⟩
  · exact ⟨⟨_, hp⟩, fun m hm' => ⟨((hp.sound.watches.byPage _ _).mp (hm m hm').1).1, (hm m hm').2⟩⟩

theorem needCompanion (h : Steady site s) {r : Except CoreError (Option Companion)}
    (hr : s.needCompanion site = .ok (r, s')) : Steadies site s s' := by
  cases needCompanion_cases hr with
  | known => exact h.refl
  | refused hsearch | scarce hsearch =>
      obtain ⟨⟨page, hp⟩, -⟩ := h.codePage hsearch
      exact h.paged rfl hp
  | created hsearch halloc =>
      obtain ⟨⟨page, hp⟩, hm⟩ := h.codePage hsearch
      have hpaged := h.paged rfl hp
      exact hpaged.trans (hpaged.1.join rfl (hm _ rfl).1 (hm _ rfl).2 (allocate_spec hp.sound halloc))

/-! ### Taking the trace -/

theorem decodeAt (h : Steady site s) {eip linear : UInt32} {r : Except CoreError (Option Instruction)}
    (hr : s.decodeAt site eip linear = .ok (r, s')) : Steadies site s s' := by
  cases decodeAt_cases hr with
  | first | elsewhere => exact h.refl
  | scarce hneed | alone hneed => exact h.needCompanion hneed
  | across _ _ hneed => exact h.needCompanion hneed
  | second _ hneed => exact h.needCompanion hneed

theorem fetch (h : Steady site s) {eip : UInt32} {r : Except CoreError (Option Fetched)}
    (hr : s.fetch site eip = .ok (r, s')) : Steadies site s s' := by
  cases fetch_cases hr with
  | scarce hdecode | missing hdecode => exact h.decodeAt hdecode
  | found hdecode =>
      have hdecoded := h.decodeAt hdecode
      exact hdecoded.trans (hdecoded.1.coverBytes _ _ _)

theorem takes (h : Steady site s) {n : Nat} {eip : UInt32} {r : Except CoreError Trace} (ht : Takes site n eip s r s') :
    Steadies site s s' := by
  induction ht with
  | scarce hfetch | missing hfetch => exact h.fetch hfetch
  | terminal hfetch | full hfetch => exact h.fetch hfetch
  | more hfetch _ _ ih =>
      have hfetched := h.fetch hfetch
      exact hfetched.trans (ih hfetched.1)

theorem take (h : Steady site s) {n : Nat} {eip : UInt32} {r : Except CoreError Trace}
    (hr : Scan.take site n eip s = .ok (r, s')) : Steadies site s s' :=
  h.takes (take_cases hr)

end Steady

end Scan

/-! ### The compilation as a whole -/

namespace Compilation

open Scan

variable (k : Compilation)

/-- The cache once a span was opened for the block. -/
def opened : Cache :=
  k.cache.openBlock.2

/-- Offset of the block's code in the arena. -/
def start : Nat :=
  (k.opened.block k.block).codeStart

/-- Bytes of host code that the block may have. -/
def room : Nat :=
  k.opened.capacity k.block

/-- Writing the block's code: its size, and the host code afterwards. -/
def emission : Except Abort (Except EmitError Nat × HostCode) :=
  k.code.emitBlock k.start k.room (Lowering.labels k.trace) (Lowering.block (Compile.context k.cpu k.block) k.trace)

/-- What a compilation did, wherever pages are. -/
structure Laid (r : Except CoreError BlockId) (c' : Cache) (code' : HostCode) : Prop where
  sound : c'.Sound
  fixed : c'.idleShell.offPages = k.cache.idleShell.offPages
  wrote : HostCode.Wrote k.start k.room k.code code'
  /-- Other blocks with code of their own were there before. -/
  other : ∀ x, x ≠ k.block → c'.Runnable x → (c'.block x).core = (k.opened.block x).core
  result : (∃ e, r = .error e) ∧ (c'.block k.block).live = false ∨
    r = .ok k.block ∧ c'.Runnable k.block ∧ (c'.block k.block).codeStart = k.start ∧
      ∃ written, k.emission = .ok (.ok written, code') ∧ written ≤ k.room ∧ written ≤ c'.capacity k.block

variable {k} {c' : Cache}

theorem opened_spec (hc : k.cache.Sound) : Opened k.cache k.block k.opened :=
  openBlock_spec hc

theorem Pending.steady (h : k.Pending) (hc : k.cache.Sound) : Steady k.site k.scan := by
  have hsite := h.sited hc
  have hnone : ∀ o, k.scan.companion ≠ some o := fun o ho => by cases ho
  refine ⟨hsite.sound, hsite.monitor ▸ hsite.owner, hsite.ordinary, ?_, ?_, fun _ => hsite.single, fun o ho => absurd ho (hnone o),
    fun o ho => absurd ho (hnone o), fun o ho => absurd ho (hnone o)⟩
  · rw [hsite.monitor, Monitor.page_eq_of_core (hsite.core_monitor _), hsite.page]
  · rw [hsite.monitor, Monitor.code32_eq_of_core (hsite.core_monitor _), h.code32, hsite.cpu_eq]

/-- A block with code of its own that the scan did not work on is as it was when the span was opened. -/
theorem Pending.core_eq_opened (h : k.Pending) (hc : k.cache.Sound) {r : Except CoreError Trace} {s : Scan}
    (hr : k.outcome = .ok (r, s)) {x : BlockId} (hx : x ≠ k.block) (hrun : s.cache.Runnable x) :
    (s.cache.block x).core = (k.opened.block x).core := by
  obtain ⟨hsteady, hdrift⟩ := (h.steady hc).take hr
  have hout : ¬Involved k.site s x := by
    rintro (hxs | ⟨o, ho, rfl⟩)
    · exact hx hxs
    · have hkind := hsteady.sound.paired.kind _ _ (hsteady.second o ho)
      rw [hsteady.ordinary, hrun.2] at hkind
      cases hkind
  rw [hdrift.off.core x hout hrun.1]
  exact congrArg Block.core ((h.sited hc).other x hx)

/-- Host code is written where the span was opened. -/
theorem Pending.window (h : k.Pending) (hc : k.cache.Sound) {r : Except CoreError Trace} {s : Scan}
    (hr : k.outcome = .ok (r, s)) : (s.cache.block k.block).codeStart = k.start ∧ s.cache.capacity k.block = k.room := by
  obtain ⟨-, hdrift⟩ := (h.steady hc).take hr
  have hsite := h.sited hc
  have hplace : (s.cache.block k.block).place = (k.opened.block k.block).place := hdrift.place.trans hsite.place
  have hsettings : s.cache.settings = k.opened.settings := by
    have hscan := hdrift.off.settings
    have hsited : k.scan.cache.settings = k.cache.settings := hsite.off.settings
    have hopened : k.opened.settings = k.cache.settings := (opened_spec hc).shrinks.same.settings
    rw [hscan, hsited, hopened]
  exact ⟨congrArg Prod.fst hplace, capacity_eq_of_place hplace hsettings⟩

theorem emit_wrote {id : BlockId} {labels : Nat} {ops : List MicroOp} {c : Cache} {code code' : HostCode}
    {r : Except CoreError BlockId} (h : Compile.emit id labels ops c code = .ok (r, c', code')) :
    HostCode.Wrote (c.block id).codeStart (c.capacity id) code code' := by
  unfold Compile.emit at h
  split at h
  · cases h
  · rename_i hemit
    cases h
    exact HostCode.wrote_emitBlock hemit
  · rename_i hemit
    have hwrote := HostCode.wrote_emitBlock hemit
    split at h
    · cases h
    · cases h
      exact hwrote
    · cases h
      exact hwrote

/-- How a compilation ends: the open block is given up, or it is closed with the code that was written for it. -/
theorem Pending.settles (h : k.Pending) (hc : k.cache.Sound) {r : Except CoreError BlockId} {mem' : Memory} {code' : HostCode}
    (hr : k.result = .ok (r, mem', c', code')) :
    ∃ t s, k.outcome = .ok (t, s) ∧ Steadies k.site k.scan s ∧ HostCode.Wrote k.start k.room k.code code' ∧ Quiet s.cache c' ∧
      ((∃ e, r = .error e) ∧ GivenUp k.block s.cache c' ∨
        r = .ok k.block ∧ ∃ written, Closed k.block written s.cache c' ∧ k.emission = .ok (.ok written, code')) := by
  have hsite := h.sited hc
  rw [result_eq] at hr
  cases hout : k.outcome with
  | error abort =>
      rw [hout] at hr
      cases hr
  | ok out =>
      obtain ⟨t, s⟩ := out
      rw [hout] at hr
      have hsteadies := (h.steady hc).take hout
      obtain ⟨hsteady, hdrift⟩ := hsteadies
      have hlive : (s.cache.block k.block).live = true := hsteady.live
      have hbuilding : s.cache.building = some k.block := hdrift.off.building.trans hsite.building
      have hactive : s.cache.active = k.block := hdrift.off.active.trans hsite.active
      refine ⟨t, s, rfl, ⟨hsteady, hdrift⟩, ?_⟩
      cases t with
      | error e =>
          cases hr
          refine ⟨.refl .., .abandon _, .inl ⟨⟨e, rfl⟩, ?_⟩⟩
          rw [abandon, hbuilding]
          dsimp only
          rw [clearIfLive, if_pos (show ({ s.cache with building := none } : Cache).block k.block |>.live from hlive)]
          exact givenUp_clearBlock hsteady.sound hlive
      | ok t =>
          dsimp only at hr
          have htrace : k.trace = t := by rw [trace, hout]
          obtain ⟨hstart, hroom⟩ := h.window hc hout
          split at hr
          · cases hr
          · rename_i r₁ c₁ code₁ hemit
            cases hr
            have hwrote := emit_wrote hemit
            rw [hstart, hroom] at hwrote
            refine ⟨hwrote, .emit hemit, ?_⟩
            rcases emit_spec hsteady.sound hlive hbuilding hactive hemit with hgiven | ⟨hok, written, hclosed, hcode⟩
            · exact .inl hgiven
            · refine .inr ⟨hok, written, hclosed, ?_⟩
              rw [emission, htrace, ← hstart, ← hroom]
              exact hcode

theorem Pending.laid (h : k.Pending) (hc : k.cache.Sound) {r : Except CoreError BlockId} {mem' : Memory} {code' : HostCode}
    (hr : k.result = .ok (r, mem', c', code')) : k.Laid r c' code' := by
  obtain ⟨t, s, hout, ⟨hsteady, hdrift⟩, hwrote, -, hend⟩ := h.settles hc hr
  have hfixed : s.cache.idleShell.offPages = k.cache.idleShell.offPages :=
    hdrift.off.evolves.fixed.trans (h.sited hc).evolves.fixed
  have hother : ∀ x, x ≠ k.block → c'.Runnable x → (c'.block x).core = (s.cache.block x).core →
      (c'.block x).core = (k.opened.block x).core := by
    intro x hx hrun hcore
    rw [hcore]
    exact h.core_eq_opened hc hout hx ⟨Block.live_eq_of_core hcore ▸ hrun.1, Block.isCompanion_eq_of_core hcore ▸ hrun.2⟩
  rcases hend with ⟨herr, hgiven⟩ | ⟨hok, written, hclosed, hcode⟩
  · exact ⟨hgiven.sound, hgiven.evolves.fixed.trans hfixed, hwrote,
      fun x hx hrun => hother x hx hrun (hgiven.evolves.core x not_false hrun.1), .inl ⟨herr, hgiven.dead⟩⟩
  · have hclaim := Block.claim_eq_of_tenant hclosed.kept.tenant
    obtain ⟨hstart, hroom⟩ := h.window hc hout
    refine ⟨hclosed.sound, ?_, hwrote, fun x hx hrun => hother x hx hrun (hclosed.kept.core x hx hrun.1),
      .inr ⟨hok, ⟨?_, ?_⟩, hclosed.kept.codeStart.trans hstart, written, hcode, hroom ▸ hclosed.fits, hclosed.room⟩⟩
    · rw [hclosed.idle]
      exact hfixed
    · rw [Block.live_eq_of_claim hclaim]
      exact hsteady.live
    · rw [Block.isCompanion_eq_of_claim hclaim]
      exact hsteady.ordinary

/-! ### The pages of the new block -/

/-- The parts of the new block are what the scan worked on. -/
theorem involved_iff_part {s : Scan} (h : Steady k.site s) {x : BlockId} :
    Involved k.site s x ↔ s.cache.Part k.block x := by
  refine or_congr Iff.rfl ⟨?_, fun hx => ?_⟩
  · rintro ⟨o, ho, rfl⟩
    exact h.second o ho
  · cases ho : s.companion with
    | none => exact absurd (hx.symm.trans (h.single ho)) (by simp)
    | some o => exact ⟨o, rfl, Option.some.inj (hx.symm.trans (h.second o ho))⟩

/-- The compilation made a block, wherever its pages are: both parts of it are on pages for its code size. -/
structure Formed (k : Compilation) (c' : Cache) : Prop where
  owner : (c'.block k.block).owner = some k.monitor
  ordinary : (c'.block k.block).isCompanion = false
  start : (c'.block k.block).start = pageOffset k.cpu.ipLinear
  page : (c'.monitor k.monitor).page = (k.cache.monitor k.monitor).page
  code32 : ∀ x, c'.Part k.block x → ∃ m, (c'.block x).owner = some m ∧ (c'.monitor m).code32 = k.cpu.codeBig
  evolves : Evolves (c'.Part k.block) k.cache c'

theorem Pending.formed (h : k.Pending) (hc : k.cache.Sound) {r : Except CoreError BlockId} {mem' : Memory} {code' : HostCode}
    (hr : k.result = .ok (r, mem', c', code')) :
    (∃ e, r = .error e) ∧ Evolves (fun _ => False) k.cache c' ∧ (c'.block k.block).live = false ∨
      r = .ok k.block ∧ k.Formed c' := by
  obtain ⟨t, s, hout, ⟨hsteady, hdrift⟩, -, -, hend⟩ := h.settles hc hr
  have hsite := h.sited hc
  have hevolves : Evolves (Involved k.site s) k.cache s.cache :=
    Evolves.trans hsite.evolves hdrift.off.evolves fun x hx _ hxb => hx (.inl hxb)
  rcases hend with ⟨herr, hgiven⟩ | ⟨hok, written, hclosed, -⟩
  · refine .inl ⟨herr, hevolves.trans hgiven.evolves fun x _ hlive hx => ?_, hgiven.dead⟩
    rcases (involved_iff_part hsteady).mp hx with rfl | hcomp
    · exact absurd (hgiven.dead.symm.trans hlive) (by simp)
    · exact absurd ((hgiven.part x hcomp).symm.trans hlive) (by simp)
  · have hcomp := Block.companion_eq_of_tenant hclosed.kept.tenant
    have hpart : ∀ x, c'.Part k.block x ↔ s.cache.Part k.block x := fun x => by rw [Cache.Part, Cache.Part, hcomp]
    have hself := (hclosed.part (s.cache.part_self k.block)).2
    have hcpu : k.site.cpu = k.cpu := hsite.cpu_eq
    have hmonitor : k.site.monitor = k.monitor := hsite.monitor
    have hclosing : Evolves (c'.Part k.block) s.cache c' := by
      refine ⟨hclosed.idle ▸ rfl, hclosed.kept.size, hclosed.kept.tableSize, hclosed.kept.monitorsSize,
        fun x hx hlive => ?_, fun x n _ _ => ?_⟩
      · exact hclosed.kept.core x (fun hxid => hx (.inl hxid)) hlive
      · rw [hclosed.kept.monitor]
    refine .inr ⟨hok, (Block.owner_eq_of_claim hself).trans (hmonitor ▸ hsteady.owner),
      (Block.isCompanion_eq_of_claim hself).trans hsteady.ordinary,
      (Block.start_eq_of_claim hself).trans (hdrift.start.trans hsite.start), ?_, fun x hx => ?_,
      hevolves.trans hclosing fun x hx _ hinv => hx ((hpart x).2 ((involved_iff_part hsteady).mp hinv))⟩
    · rw [hclosed.kept.monitor, ← hmonitor, hsteady.page, hsite.page, hmonitor]
    rw [hpart] at hx
    have howner := Block.owner_eq_of_claim (hclosed.part hx).2
    rcases (involved_iff_part hsteady).mpr hx with rfl | ⟨o, ho, rfl⟩
    · exact ⟨_, howner.trans hsteady.owner, by rw [hclosed.kept.monitor, hsteady.code32, hcpu]⟩
    · exact ⟨_, howner.trans (hsteady.secondOwner o ho), by rw [hclosed.kept.monitor, hsteady.secondCode32 o ho, hcpu]⟩

end Compilation

end Recompiler
