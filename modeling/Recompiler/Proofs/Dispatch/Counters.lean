import Recompiler.Proofs.Compile.Counting
import Recompiler.Proofs.Dispatch.Teardown

/-! How often bytes are counted. The counts of the write maps are narrow numbers that would wrap around without notice. They
do not, where pages are not remapped: of the blocks on a page those count a byte whose trace has it, and there are too few
blocks on a page for a count to get near its limit. -/

namespace Recompiler

open Cache

/-- Pages are never remapped. Otherwise memory may change in any way. -/
def Regime.unmapped : Regime where
  begins mem := mem.mapped = []
  may mem mem' := mem'.mapped = mem.mapped

namespace Cache

variable {c c' : Cache} {log log' : List Compilation} {mem mem' : Memory} {n : MonitorId} {x : BlockId} {i : Nat}
  {P : BlockId → Prop}

/-- The part of a block that has the code. -/
def primary (c : Cache) (x : BlockId) : BlockId :=
  if (c.block x).isCompanion then (c.block x).companion.getD x else x

/-- The blocks of a page that counted the byte at an offset when they were compiled, which the log tells. The newest
compilation is the first of the log. -/
def counters (c : Cache) (log : List Compilation) (n : MonitorId) (i : Nat) : Finset BlockId :=
  {x ∈ c.owned n | (log.find? (·.block = c.primary x)).any (·.counts (c.monitor n).page i)}

theorem mem_counters : x ∈ c.counters log n i ↔ (c.block x).owner = some n ∧
    ∃ k, log.find? (·.block = c.primary x) = some k ∧ k.counts (c.monitor n).page i = true := by
  rw [counters, Finset.mem_filter, mem_owned, Option.any_eq_true]

/-- A block that is still there counts what it counted. -/
theorem mem_counters_of_evolves (he : Evolves P c c') (hx : ¬P x) (hn : (c'.block x).owner = some n)
    (hlog : log'.find? (·.block = c.primary x) = log.find? (·.block = c.primary x)) (h : x ∈ c.counters log n i) :
    x ∈ c'.counters log' n i := by
  have hcore := he.core x hx (live_iff.mpr ⟨n, hn⟩)
  have hpage : (c'.monitor n).page = (c.monitor n).page := congrArg Prod.fst (he.station x n hx hn)
  have hprimary : c'.primary x = c.primary x := by
    rw [primary, primary, Block.isCompanion_eq_of_core hcore, Block.companion_eq_of_core hcore]
  rw [mem_counters, hprimary, hpage, hlog]
  exact ⟨hn, (mem_counters.mp h).2⟩

/-- A part of a block leads to the block. -/
theorem Paired.primary_eq {id : BlockId} (h : Paired c) (hid : (c.block id).isCompanion = false) (hx : c.Part id x) :
    c.primary x = id := by
  rcases hx with rfl | hx
  · rw [primary, hid, if_neg (by simp)]
  · have hcomp : (c.block x).isCompanion = true := by rw [h.kind id x hx, hid]; rfl
    rw [primary, hcomp, if_pos rfl, h.symm id x hx, Option.getD_some]

/-- What leads to a block, and is still as it was, is a part of it. -/
theorem Paired.part_of_primary {id : BlockId} (h : Paired c') (hcore : (c'.block x).core = (c.block x).core)
    (hx : c.primary x = id) : c'.Part id x := by
  unfold primary at hx
  split at hx
  · cases hy : (c.block x).companion with
    | none =>
        rw [hy] at hx
        exact .inl hx
    | some y =>
        rw [hy] at hx
        obtain rfl : y = id := hx
        exact .inr (h.symm x y ((Block.companion_eq_of_core hcore).trans hy))
  · exact .inl hx

/-- After a compilation the blocks that it did not work on count what they counted before. -/
theorem mem_counters_of_apart {k : Compilation} (he : Evolves P k.cache c') (hc : Paired c') (hx : ¬P x)
    (hn : (c'.block x).owner = some n) (hapart : ¬c'.Part k.block x) (h : x ∈ k.cache.counters log n i) :
    x ∈ c'.counters (k :: log) n i := by
  have hcore := he.core x hx (live_iff.mpr ⟨n, hn⟩)
  have hprimary : k.block ≠ k.cache.primary x := fun heq => hapart (hc.part_of_primary hcore heq.symm)
  exact mem_counters_of_evolves he hx hn (List.find?_cons_of_neg (by simpa using hprimary)) h

/-- The parts of the new block count what the compilation counted. -/
theorem mem_counters_of_part {k : Compilation} (hc : Paired c') (hord : (c'.block k.block).isCompanion = false)
    (hx : c'.Part k.block x) (hn : (c'.block x).owner = some n) (h : k.counts (c'.monitor n).page i = true) :
    x ∈ c'.counters (k :: log) n i := by
  refine mem_counters.mpr ⟨hn, k, ?_, h⟩
  rw [hc.primary_eq hord hx]
  exact List.find?_cons_of_pos (by simp)

/-- Pages are not remapped, and what is counted was counted by a compilation. -/
structure Metered (log : List Compilation) (mem : Memory) (c : Cache) : Prop where
  sound : Sound c
  mapped : mem.mapped = []
  adjacent : Adjacent c
  capped : ∃ U, CappedAt c U ∧ ∀ x n i, (c.block x).owner = some n → x ∉ U i → x ∈ c.counters log n i

namespace Metered

/-- Blocks go. -/
theorem narrow (h : Metered log mem c) (hc : Sound c') (hn : Narrows c c') (hcap : ∀ U, CappedAt c U → CappedAt c' U)
    (hmap : mem'.mapped = mem.mapped) : Metered log mem' c' := by
  obtain ⟨U, hU, hcounted⟩ := h.capped
  refine ⟨hc, hmap.trans h.mapped, h.adjacent.narrow hc.paired hn, U, hcap U hU, fun x n i hx hxU => ?_⟩
  have hold : (c.block x).owner = some n := (Block.owner_eq_of_core (hn.core x (live_iff.mpr ⟨n, hx⟩))).symm.trans hx
  exact mem_counters_of_evolves (.of_narrows hn fun _ => False) not_false hx rfl (hcounted x n i hold hxU)

/-- The bound on a count. -/
theorem toNat_cover_le (h : Metered log mem c) (n : MonitorId) (i : Nat) :
    ((c.monitor n).cover.getD i 0).toNat ≤ (c.counters log n i).card := by
  obtain ⟨U, hU, hcounted⟩ := h.capped
  refine (hU.le n i).trans (Finset.card_le_card fun x hx => ?_)
  obtain ⟨hdep, hxU⟩ := Finset.mem_sdiff.mp hx
  exact hcounted x n i (mem_dependents.mp hdep).1 hxU

/-- There are as many starts on a page as it has bytes, and as many on the page before it. -/
theorem card_counters_le (h : Metered log mem c) (n : MonitorId) (i : Nat) (b : Bool) :
    {x ∈ c.counters log n i | (c.block x).isCompanion = b}.card ≤ pageSize := by
  refine (Finset.card_le_card ?_).trans (card_kind_le h.sound.toOrderly h.adjacent n b)
  exact Finset.filter_subset_filter _ (Finset.filter_subset _ _)

/-- When a trace was taken, other blocks are counted for what they counted before, and the parts of the new block for what
the compilation counts. -/
theorem counted {k : Compilation} (h : Metered log k.mem k.cache) (hk : k.Pending) {t : Except CoreError Trace} {s : Scan}
    (hout : k.outcome = .ok (t, s)) : ∃ U, CappedAt s.cache U ∧
      (∀ x n i, (k.cache.block x).owner = some n → ¬s.cache.Part k.block x → x ∉ U i → x ∈ k.cache.counters log n i) ∧
      ∀ x n i, s.cache.Part k.block x → (s.cache.block x).owner = some n → x ∉ U i → t = .ok k.trace →
        k.counts (s.cache.monitor n).page i = true := by
  obtain ⟨U, hU, hcounted⟩ := h.capped
  obtain ⟨U', ⟨a, hfill⟩, hnew⟩ := (hk.filling h.sound hU).take hout
  have hstraight := (hk.straight h.sound h.mapped h.adjacent).take hout
  have hpart : ∀ x, Scan.Involved k.site s x ↔ s.cache.Part k.block x := fun x =>
    Compilation.involved_iff_part hstraight.toSteady
  refine ⟨U', hfill.capped, fun x n i hn hapart hxU => hcounted x n i hn ?_, fun x n i hx hn hxU ht => ?_⟩
  · rcases hnew x i hxU with ⟨hfree, -⟩ | ⟨hinv, -⟩
    · exact fun hmem => hfree (Finset.mem_insert_of_mem hmem)
    · exact absurd ((hpart x).mp hinv) hapart
  · rcases hnew x i hxU with ⟨hfree, hinv⟩ | ⟨-, hcounts⟩
    · -- Before the trace was taken, only the block itself was involved, and it had counted nothing.
      rcases hinv ((hpart x).mpr hx) with hxk | ⟨o, ho, -⟩
      · exact absurd (hxk ▸ Finset.mem_insert_self k.block (U i)) hfree
      · cases ho
    · obtain ⟨f, hf, hcount⟩ := hcounts _ ht
      exact hk.counts_of_counts h.sound hstraight hf hcount hn

/-- A compilation is added to the log, whether it succeeds or not. -/
theorem compile {k : Compilation} (h : Metered log k.mem k.cache) (hk : k.Pending) {r : Except CoreError BlockId}
    {code' : HostCode} (hr : k.result = .ok (r, mem', c', code')) : Metered (k :: log) mem' c' := by
  obtain ⟨t, s, hout, -, -, -, hend⟩ := hk.settles h.sound hr
  obtain ⟨rfl, htrace⟩ := Compilation.outcome_of_result hout hr
  obtain ⟨U, hU, hothers, hparts⟩ := h.counted hk hout
  have hstraight := (hk.straight h.sound h.mapped h.adjacent).take hout
  rcases hend with ⟨-, hgiven⟩ | ⟨rfl, written, hclosed, -⟩
  · -- No part of the block is left.
    have hc := hgiven.sound
    have he : Evolves (fun _ => False) k.cache c' := by
      rcases hk.formed h.sound hr with ⟨-, he, -⟩ | ⟨-, hformed⟩
      · exact he
      · exact absurd (hgiven.dead.symm.trans (live_iff.mpr ⟨_, hformed.owner⟩)) (by simp)
    refine ⟨hc, hstraight.mapped, hstraight.adjacent.evolve hc.paired hgiven.evolves fun _ => False.elim, U,
      hgiven.capped U hU, fun x n i hn hxU => ?_⟩
    have hlive := live_iff.mpr ⟨n, hn⟩
    have hne : x ≠ k.block := by
      rintro rfl
      exact absurd (hgiven.dead.symm.trans hlive) (by simp)
    have hapart : ¬c'.Part k.block x := by
      rintro (hx | hx)
      · exact hne hx
      · exact absurd (hgiven.dead.symm.trans (hc.paired.live _ _ hx)) (by simp)
    have hapart' : ¬s.cache.Part k.block x := by
      rintro (hx | hx)
      · exact hne hx
      · exact absurd ((hgiven.part x hx).symm.trans hlive) (by simp)
    have hold := (Block.owner_eq_of_core (he.core x not_false hlive)).symm.trans hn
    exact mem_counters_of_apart he hc.paired not_false hn hapart (hothers x n i hold hapart' hxU)
  · have hc := hclosed.sound
    obtain ⟨⟨e, herr⟩, -⟩ | ⟨-, hformed⟩ := hk.formed h.sound hr
    · cases herr
    have hsame : ∀ x, c'.Part k.block x ↔ s.cache.Part k.block x := fun x => by
      rw [Cache.Part, Cache.Part, Block.companion_eq_of_tenant hclosed.kept.tenant]
    have htenant : ∀ x, (c'.block x).live = true → (c'.block x).tenant = (s.cache.block x).tenant := fun x hx => by
      by_cases hxk : x = k.block
      · exact hxk ▸ hclosed.kept.tenant
      · exact Block.tenant_eq_of_core (hclosed.kept.core x hxk hx)
    refine ⟨hc, hstraight.mapped, hstraight.adjacent.of_tenants hc.paired fun x y m _ hm => ?_, U,
      hclosed.capped U hU, fun x n i hn hxU => ?_⟩
    · exact ⟨htenant x (live_iff.mpr ⟨m, hm⟩), by rw [hclosed.kept.monitor]⟩
    · have hlive := live_iff.mpr ⟨n, hn⟩
      by_cases hx : c'.Part k.block x
      · have hown := (Block.owner_eq_of_claim (Block.claim_eq_of_tenant (htenant x hlive))).symm.trans hn
        have hcounts := hparts x n i ((hsame x).mp hx) hown hxU (htrace _ rfl)
        rw [← hclosed.kept.monitor] at hcounts
        exact mem_counters_of_part hc.paired hformed.ordinary hx hn hcounts
      · have hold := (Block.owner_eq_of_core (hformed.evolves.core x hx hlive)).symm.trans hn
        have hapart : ¬s.cache.Part k.block x := fun hx' => hx ((hsame x).mpr hx')
        exact mem_counters_of_apart hformed.evolves hc.paired hx hn hx (hothers x n i hold hapart hxU)

/-- Whatever is compiled, also where the first instruction of a block cannot be fetched. -/
theorem upkeep : Upkeep .unmapped (fun _ => True) fun log mem c _ => Metered log mem c where
  start := by
    intro settings mem code hmapped hcheck _
    have hconsistent := consistent_create hcheck code.base Arena.blocksStart code.stubs.exits
    refine ⟨hconsistent.toSound, hmapped, hconsistent.adjacent, _, (capped_create ..).cappedAt, fun x n i hx => ?_⟩
    rw [owner_create] at hx
    cases hx
  sound h := h.sound
  change h hmay := ⟨h.sound, hmay.trans h.mapped, h.adjacent, h.capped⟩
  stored h hs := by
    have hmapped := congrArg Memory.mapped hs.frame
    exact h.narrow hs.sound hs.narrows hs.capped hmapped
  paged h _ hp := h.narrow hp.sound hp.narrows hp.capped (Tracked.mapped_eq_of_unreleased hp.memory)
  link := by
    intro log mem c code id slot target h hid htarget hfree
    have hapart := LinksApart.link c id slot target
    refine h.narrow (h.sound.link hid htarget hfree) (.link _ _ _ _) (fun U hU => hU.congr (fun x => ?_) fun n => ?_) rfl
    · exact Block.claim_eq_of_core (hapart.core x)
    · rw [hapart.monitor]
  compile h hpending _ hr := h.compile hpending hr

end Metered

end Cache

namespace Engine

/-- In every state that can be reached where pages are not remapped, with any settings and any code, the count of a byte is
at most the number of blocks of the page that counted the byte when they were compiled. Of these at most 4096 start on the
page, and at most 4096 are the second parts of blocks that start on the page before. So when a compilation takes in its
bytes, no count wraps around. -/
theorem cover_never_wraps {σ : Type} {p : Platform σ} (hp : p.Confined .unmapped) {e : Engine σ} {phase : Phase}
    {log : List Compilation} {record : List MonitorId} (h : Visits .unmapped p e phase log record) :
    (∀ n i, ((e.cache.monitor n).cover.getD i 0).toNat ≤ (e.cache.counters log n i).card ∧
      {x ∈ e.cache.counters log n i | (e.cache.block x).isCompanion = false}.card ≤ 4096 ∧
      {x ∈ e.cache.counters log n i | (e.cache.block x).isCompanion = true}.card ≤ 4096 ∧
      (e.cache.counters log n i).card ≤ 8192) ∧
    (∀ n i, ∀ x ∈ e.cache.counters log n i, (e.cache.block x).isCompanion = true →
      ∃ m, (e.cache.block (e.cache.primary x)).owner = some m ∧ (e.cache.monitor n).page = nextPage (e.cache.monitor m).page) ∧
    ∀ m, phase = .create m → ∀ f i s, (e.request m).ComesTo f i s → ∀ n j,
      ((s.cache.monitor n).cover.getD j 0 + 1).toNat = ((s.cache.monitor n).cover.getD j 0).toNat + 1 := by
  obtain ⟨hmetered, hready⟩ := h.keeps Metered.upkeep hp fun _ _ => trivial
  refine ⟨fun n i => ?_, fun n i x hx hcomp => ?_, ?_⟩
  · have hordinary := hmetered.card_counters_le n i false
    have hcompanions := hmetered.card_counters_le n i true
    have hsub : e.cache.counters log n i ⊆ e.cache.owned n := Finset.filter_subset _ _
    have hall := card_owned_le hmetered.sound.toOrderly hmetered.adjacent n
    exact ⟨hmetered.toNat_cover_le n i, hordinary, hcompanions, (Finset.card_le_card hsub).trans hall⟩
  · obtain ⟨a, m, ha, hm, -, hpage, -⟩ :=
      seat_primary hmetered.sound.toOrderly hmetered.adjacent (mem_counters.mp hx).1 hcomp
    refine ⟨m, ?_, hpage⟩
    rw [primary, hcomp, if_pos rfl, ha]
    exact hm
  · rintro m rfl f i s hcomes n j
    obtain ⟨U, hU, -⟩ := hmetered.capped
    exact Compilation.Pending.toNat_cover_add_one hready hmetered.sound hmetered.mapped hmetered.adjacent hU hcomes n j

/-- A compilation whose first instruction passes a test comes to it. -/
theorem exists_comesTo {k : Compilation} (P : Scan → Bool)
    (h : (match k.scan.decodeAt k.site k.cpu.eip (k.site.cpu.base .cs + k.cpu.eip) with
      | .ok (.ok (some inst), s) => decide (0 < inst.len) && P s
      | _ => false) = true) : ∃ f s, k.ComesTo f 0 s ∧ P s = true := by
  cases hdecode : k.scan.decodeAt k.site k.cpu.eip (k.site.cpu.base .cs + k.cpu.eip) with
  | error abort =>
      rw [hdecode] at h
      cases h
  | ok out =>
      rw [hdecode] at h
      obtain ⟨found, s⟩ := out
      rcases found with e | (_ | inst)
      · cases h
      · cases h
      · rw [Bool.and_eq_true, decide_eq_true_eq] at h
        exact ⟨_, s, Scan.ComesTo.here hdecode h.1, h.2⟩

/-- A block from the second instruction of another block on: the bytes of a jump back are counted once, and about to be
counted again. -/
theorem cover_never_wraps_overlap :
    ∃ (e : Engine Interpreter) (log : List Compilation) (record : List MonitorId) (f : Fetched) (s : Scan),
      Visits .unmapped Interpreter.platform e (.create 0) log record ∧ (e.cache.monitor 0).cover.getD 1 0 = 1 ∧
        (e.request 0).ComesTo f 0 s ∧ (s.cache.monitor 0).cover.getD 1 0 = 1 ∧
        1 ≤ (e.cache.counters log 0 1).card ∧ (e.cache.counters log 0 1).card ≤ 8192 ∧
        ((s.cache.monitor 0).cover.getD 1 0 + 1).toNat = 2 := by
  let jump (mem : Memory) (c : Cache) (code : HostCode) : Compilation := ⟨{ Cpu.flat32 with eip := 1 }, 0, mem, c, code⟩
  obtain ⟨id, mem, c, code, hcreate, hc⟩ := Machine.exists_created
    (r := Compile.createBlock .flat32 0 (Machine.onePage 0 [0x90, 0xEB, 0xFD]) Machine.watchedCache Machine.scantCode)
    (fun mem c code => (c.monitor 0).installed && (c.monitor 0).page == 0 && (c.monitor 0).code32 &&
      mem.resolve 1 false == .ok 1 && c.find 0 1 == none && (c.monitor 0).cover.getD 1 0 == 1 &&
      match (jump mem c code).scan.decodeAt (jump mem c code).site 1 ((jump mem c code).site.cpu.base .cs + 1) with
      | .ok (.ok (some inst), s) => decide (0 < inst.len) && (s.cache.monitor 0).cover.getD 1 0 == 1
      | _ => false) (by decide +kernel)
  rw [Bool.and_eq_true] at hc
  obtain ⟨f, s, hcomes, hcount⟩ := exists_comesTo (k := jump mem c code) (fun s => (s.cache.monitor 0).cover.getD 1 0 == 1) hc.2
  simp only [Bool.and_eq_true, beq_iff_eq] at hc hcount
  obtain ⟨⟨⟨⟨⟨⟨hinst, hpage⟩, hbig⟩, hpaddr⟩, hfind⟩, hcover⟩, -⟩ := hc
  obtain ⟨hprepare, -⟩ := Machine.prepareBlock_onePage (by decide) rfl hcreate
  obtain ⟨r, record, hr, hvisit⟩ :=
    (Machine.History.prepare (Machine.history_onePageMachine (R := .unmapped) _ rfl _) hprepare).visits
      (Interpreter.platform_confined _)
  obtain rfl : ⟨c, code⟩ = r := Option.some.inj hr
  -- The caller moves on to the second instruction. Its page is watched already.
  have hsound := (hvisit.keeps Metered.upkeep (Interpreter.platform_confined _) fun _ _ => trivial).1.sound
  have hfound : c.monitorOf (pageOf 1) = some 0 := (hsound.watches.byPage _ _).mpr ⟨hinst, hpage⟩
  have hsearch : c.codePage mem 1 true none = .ok (.ok (some 0), mem, c) := by
    simp only [Cache.codePage, hpaddr, hfound, hbig, if_true]
  have hmoved := (hvisit.outside .refl { Cpu.flat32 with eip := 1 } {} {} false).search hsearch
  have hdue : afterSearch c { Cpu.flat32 with eip := 1 } (.ok (some 0)) = .create 0 := if_pos hfind
  rw [hdue] at hmoved
  obtain ⟨hcounts, -, hnext⟩ := cover_never_wraps (Interpreter.platform_confined _) hmoved
  obtain ⟨hle, -, -, hall⟩ := hcounts 0 1
  have hwrap := hnext 0 rfl f 0 s hcomes 0 1
  refine ⟨_, _, _, f, s, hmoved, hcover, hcomes, hcount, ?_, hall, ?_⟩
  · exact (congrArg UInt16.toNat hcover).symm.le.trans hle
  · rw [hwrap, hcount]
    rfl

end Engine

end Recompiler
