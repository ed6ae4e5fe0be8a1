import Recompiler.Proofs.Compile.Filling
import Recompiler.Proofs.Dispatch.Companions
import Recompiler.Proofs.Dispatch.Monitors

/-! Taking the cache down. Clearing the newest page again and again takes one monitor off the list each time, so that it
ends when no page is watched. Blocks belong to pages that are watched, so there are none left, and with the blocks go
their links, the counts in the write maps and the companions' descriptors. Only the spans stay where they are. -/

namespace Recompiler

namespace Cache

variable {c c' c'' : Cache} {m n : MonitorId} {x : BlockId} {l : List MonitorId} {k : Nat}

/-- The spans, from the first one on. -/
theorem Pool.spans_eq {size : BlockId → Nat} {spans free : List BlockId} {loose : Option BlockId}
    (h : Pool c (fun b => (c.block b).arenaNext) size spans free loose) : c.spans = spans := by
  refine h.spanPath.chain_eq ?_
  have hrange : spans ⊆ List.range c.blocks.size := fun x hx => List.mem_range.mpr (h.spans_lt x hx)
  have hlength := (h.spanPath.nodup.subperm hrange).length_le
  rw [List.length_range] at hlength
  omega

/-- No page of a new cache has blocks, and all write maps are blank. -/
theorem capped_create (s : Settings) (arenaBase blocksStart : Nat) (stubs : PerSlot Nat) :
    Capped (create s arenaBase blocksStart stubs) ∅ := by
  have hcover : ∀ n, ((create s arenaBase blocksStart stubs).monitor n).cover = noCover := fun n => by rw [monitor_create]
  refine ⟨fun n => ?_, fun n i => ?_⟩
  · rw [hcover]
    exact Array.size_replicate
  · rw [hcover, getD_noCover]
    exact Nat.zero_le _

/-- Whatever is done, also where the first instruction of a block cannot be fetched, the write maps count no more blocks
than there are. -/
theorem Capped.upkeep (R : Regime) (good : Compilation → Prop) :
    Upkeep R good fun log _ c code => Housed log c code ∧ Capped c ∅ where
  start := by
    intro settings mem code hmem hcheck hcode
    exact ⟨(Housed.upkeep R good).start hmem hcheck hcode, capped_create ..⟩
  sound h := h.1.sound
  change h _ := h
  stored h hs := ⟨h.1.narrow hs.sound hs.narrows, (hs.capped _ h.2.cappedAt).capped⟩
  paged h _ hp := ⟨h.1.narrow hp.sound hp.narrows, (hp.capped _ h.2.cappedAt).capped⟩
  link := by
    intro log mem c code id slot target h hid htarget hfree
    have hapart := LinksApart.link c id slot target
    refine ⟨h.1.narrow (h.1.sound.link hid htarget hfree) (.link _ _ _ _), (h.2.cappedAt.congr (fun x => ?_) fun n => ?_).capped⟩
    · exact Block.claim_eq_of_core (hapart.core x)
    · rw [hapart.monitor]
  compile := by
    intro log k r mem' c' code' h hpending _ hr
    exact ⟨h.1.compile hpending hr, hpending.capped h.1.sound h.2 hr⟩

/-! ### One page -/

/-- What clearing page `m` does to the others. Of the blocks, those of the page go and their parts on other pages, and
nothing else changes about the rest. -/
structure PageGone (m : MonitorId) (c c' : Cache) : Prop where
  live : ∀ x, (c'.block x).live = true ↔ (c.block x).live = true ∧ ∀ y, (c.block y).owner = some m → ¬c.Part y x
  core : ∀ x, (c'.block x).live = true → (c'.block x).core = (c.block x).core
  registry : Registry c'
  bucket : ∀ n i x, x ∈ (c'.monitor n).bucket i ↔
    x ∈ (c.monitor n).bucket i ∧ ∀ y, (c.block y).owner = some m → ¬c.Part y x
  tallied : ∀ n, n ≠ m → Tallied c n → Tallied c' n
  capped : Capped c' ∅
  installed : ∀ n, (c'.monitor n).installed = true ↔ n ≠ m ∧ (c.monitor n).installed = true
  station : ∀ n, (c'.monitor n).station = (c.monitor n).station
  free : c'.freeMonitors = m :: c.freeMonitors
  blank : (c'.monitor m).cover = noCover
  calm : c'.stats.anomalies = 0

/-- A block that is left has no part on the page that was cleared. -/
theorem PageCleared.not_part (h : PageCleared m c c') (hs : Sound c) (hx : (c'.block x).live = true) {y : BlockId}
    (hy : (c.block y).owner = some m) : ¬c.Part y x := by
  have hcore := h.narrows.core x hx
  rintro (rfl | hpart)
  · exact h.gone x ((Block.owner_eq_of_core hcore).trans hy)
  · -- The two parts of a block that is left are both left.
    have hback := hs.paired.symm y x hpart
    obtain ⟨-, hlive⟩ := companion_of_core h.sound h.narrows.core hback hx
    exact h.gone y ((Block.owner_eq_of_core (h.narrows.core y hlive)).trans hy)

theorem pageGone_clearRelease (hs : Sound c) (hcap : Capped c ∅) (hm : (c.monitor m).installed = true) :
    PageGone m c (c.clearRelease m) := by
  have h := clearRelease_spec hs hm
  have hcap' := (h.capped _ hcap.cappedAt).capped
  have hlive : ∀ x, ((c.clearRelease m).block x).live = true ↔
      (c.block x).live = true ∧ ∀ y, (c.block y).owner = some m → ¬c.Part y x := fun x =>
    ⟨fun hx => ⟨h.narrows.live hx, fun y hy => h.not_part hs hx hy⟩, fun ⟨hx, hother⟩ => h.spared x hx hother⟩
  refine ⟨hlive, h.narrows.core, h.sound.registry, fun n i x => ?_, h.tallied, hcap', h.installed, h.station, h.free,
    hcap'.cappedAt.cover_eq h.gone, h.sound.calm⟩
  rw [h.sound.registry.mem_bucket, hs.registry.mem_bucket]
  constructor
  · rintro ⟨howner, hbucket⟩
    have hx := live_iff.mpr ⟨n, howner⟩
    have hcore := h.narrows.core x hx
    rw [Block.owner_eq_of_core hcore] at howner
    rw [Block.bucket_eq_of_core hcore] at hbucket
    exact ⟨⟨howner, hbucket⟩, ((hlive x).mp hx).2⟩
  · rintro ⟨⟨howner, hbucket⟩, hother⟩
    have hcore := h.narrows.core x ((hlive x).mpr ⟨live_iff.mpr ⟨n, howner⟩, hother⟩)
    rw [Block.owner_eq_of_core hcore, Block.bucket_eq_of_core hcore]
    exact ⟨howner, hbucket⟩

/-! ### All pages -/

/-- What stays the same from page to page. -/
structure Unwound (c c' : Cache) : Prop where
  sound : Sound c'
  capped : Capped c' ∅
  narrows : Narrows c c'
  place : ∀ x, (c'.block x).place = (c.block x).place

theorem Unwound.refl (hs : Sound c) (hcap : Capped c ∅) : Unwound c c :=
  ⟨hs, hcap, .refl c, fun _ => rfl⟩

theorem Unwound.trans (h : Unwound c c') (h' : Unwound c' c'') : Unwound c c'' :=
  ⟨h'.sound, h'.capped, h.narrows.trans h'.narrows, fun x => (h'.place x).trans (h.place x)⟩

theorem unwound_clearRelease (hs : Sound c) (hcap : Capped c ∅) (hm : (c.monitor m).installed = true) :
    Unwound c (c.clearRelease m) := by
  have h := clearRelease_spec hs hm
  exact ⟨h.sound, (h.capped _ hcap.cappedAt).capped, h.narrows, h.place⟩

/-- As many rounds as there are installed monitors leave none. -/
theorem clearMonitors_spec (h : Lineup c none l) (hs : Sound c) (hcap : Capped c ∅) (hk : l.length ≤ k) :
    Lineup (clearMonitors k c) none [] ∧ Unwound c (clearMonitors k c) ∧ clearMonitors k c = clearMonitors l.length c := by
  induction l generalizing c k with
  | nil =>
      have hnewest : c.newest = none := h.path
      have hdone : ∀ k, clearMonitors k c = c := fun k => by
        cases k with
        | zero => rfl
        | succ k => rw [clearMonitors, hnewest]
      rw [hdone, hdone]
      exact ⟨h, .refl hs hcap, rfl⟩
  | cons m rest ih =>
      have hnewest : c.newest = some m := h.path.1
      have hm : (c.monitor m).installed = true := (h.mem m).mp List.mem_cons_self
      have hround : ∀ k, clearMonitors (k + 1) c = clearMonitors k (c.clearRelease m) := fun k => by
        rw [clearMonitors, hnewest]
      obtain ⟨k, rfl⟩ := Nat.exists_eq_add_of_le' (Nat.succ_le_of_lt (Nat.lt_of_lt_of_le (Nat.succ_pos rest.length) hk))
      have hlineup := (h.clearRelease hm).1
      rw [List.erase_cons_head] at hlineup
      have hunwound := unwound_clearRelease hs hcap hm
      have hlength : rest.length ≤ k := Nat.le_of_succ_le_succ hk
      obtain ⟨hempty, hrest, hsame⟩ := ih hlineup hunwound.sound hunwound.capped hlength
      rw [List.length_cons, hround, hround]
      exact ⟨hempty, hunwound.trans hrest, hsame⟩

/-- An empty cache whose spans are those of another one. -/
structure TornDown (c c' : Cache) : Prop where
  installed : c'.installed = []
  idle : ∀ m, (c'.monitor m).installed = false
  unwatched : ∀ page, c'.monitorOf page = none
  free : c'.freeMonitors.Perm (List.range c.monitors.size)
  cover : ∀ m, (c'.monitor m).cover = noCover
  buckets : ∀ m < c.monitors.size, (c'.monitor m).buckets = Array.replicate c.settings.hashBuckets []
  dead : ∀ x, (c'.block x).live = false
  links : ∀ x < c.blocks.size, ∀ slot, c'.linkEntry x slot = c.stubs.get slot
  companions : ∀ x, (c.block x).live = true → (c.block x).isCompanion = true → c'.freeDescriptors.count x = 1
  descriptors : ∀ x < c.blocks.size, c'.freeDescriptors.count x = if x ∈ c.spans then 0 else 1
  spans : c'.spans = c.spans
  place : ∀ x, (c'.block x).codeStart = (c.block x).codeStart ∧ (c'.block x).codeSize = (c.block x).codeSize
  calm : c'.stats.anomalies = 0

section

variable (h : Unwound c c') (hl : Lineup c' none [])
include h

theorem Unwound.spans_eq : c'.spans = c.spans := by
  have hnext : (fun b => (c'.block b).arenaNext) = fun b => (c.block b).arenaNext :=
    funext fun x => congrArg (fun p => p.2.2) (h.place x)
  rw [Cache.spans, Cache.spans, hnext, h.narrows.size]

include hl

omit h in
theorem Lineup.idle_of_nil (m : MonitorId) : (c'.monitor m).installed = false := by
  by_contra hinst
  have hmem := (hl.mem m).mpr (Bool.of_not_eq_false hinst)
  cases hmem

theorem Unwound.dead (x : BlockId) : (c'.block x).live = false := by
  by_contra hlive
  obtain ⟨m, hm⟩ := live_iff.mp (Bool.of_not_eq_false hlive)
  have hinst := h.sound.registry.installed x m hm
  rw [hl.idle_of_nil] at hinst
  cases hinst

/-- The buckets hold live blocks only. -/
theorem Unwound.buckets_eq (hm : m < c.monitors.size) :
    (c'.monitor m).buckets = Array.replicate c.settings.hashBuckets [] := by
  have hcount := h.sound.registry.bucketCount m (h.narrows.monitorsSize ▸ hm)
  rw [h.narrows.settings] at hcount
  refine Array.ext (hcount.trans Array.size_replicate.symm) fun i hi hi' => ?_
  have hbucket : (c'.monitor m).buckets[i] = (c'.monitor m).bucket i := by
    rw [Monitor.bucket, Array.getD_eq_getD_getElem?, Array.getElem?_eq_getElem hi, Option.getD_some]
  rw [hbucket, Array.getElem_replicate, List.eq_nil_iff_forall_not_mem]
  intro x hx
  have hlive := live_iff.mpr ⟨m, ((h.sound.registry.mem_bucket m i x).mp hx).1⟩
  rw [h.dead hl] at hlive
  cases hlive

/-- Only blocks that run are linked. -/
theorem Unwound.linkEntry_eq (hx : x < c.blocks.size) (slot : Slot) : c'.linkEntry x slot = c.stubs.get slot := by
  have hlinked := h.sound.layout.linked
  have hnone : (c'.linkSlot x slot).target = none := by
    cases htarget : (c'.linkSlot x slot).target with
    | none => rfl
    | some b =>
        have hlive := (hlinked.ends x b slot htarget).1.1
        rw [h.dead hl] at hlive
        cases hlive
  rw [hlinked.entry x (h.narrows.size ▸ hx), hnone, ← h.narrows.stubs]
  rfl

/-- A descriptor without a span is free. -/
theorem Unwound.count_freeDescriptors (hx : x < c.blocks.size) :
    c'.freeDescriptors.count x = if x ∈ c.spans then 0 else 1 := by
  obtain ⟨spans, free, hpool⟩ := h.sound.layout.pool
  rw [hpool.freeDescriptors_eq, ← h.spans_eq, hpool.spans_eq]
  split
  · rename_i hspan
    exact List.count_eq_zero_of_not_mem (hpool.apart x hspan)
  · rename_i hspan
    refine List.count_eq_one_of_mem hpool.freePath.nodup ?_
    rcases hpool.placed x (h.narrows.size ▸ hx) (by simp) with hin | hfree | ⟨hlive, -⟩
    · exact absurd hin hspan
    · exact hfree
    · rw [h.dead hl] at hlive
      cases hlive

/-- When no page is watched any more, nothing is left. -/
theorem Unwound.tornDown (hs : Sound c) : TornDown c c' where
  installed := hl.installed_eq
  idle := hl.idle_of_nil
  unwatched page := by
    cases hpage : c'.monitorOf page with
    | none => rfl
    | some m =>
        have hinst := ((hl.byPage page m).mp hpage).1
        rw [hl.idle_of_nil] at hinst
        cases hinst
  free := by
    refine (List.perm_ext_iff_of_nodup hl.free_nodup List.nodup_range).mpr fun m => ?_
    rw [hl.free, List.mem_range, h.narrows.monitorsSize]
    simp [hl.idle_of_nil]
  cover m := h.capped.cappedAt.cover_eq fun x hx => by
    have hlive := live_iff.mpr ⟨m, hx⟩
    rw [h.dead hl] at hlive
    cases hlive
  buckets m hm := h.buckets_eq hl hm
  dead := h.dead hl
  links x hx slot := h.linkEntry_eq hl hx slot
  companions x hlive hcomp := by
    rw [h.count_freeDescriptors hl (lt_size_of_live hlive), if_neg]
    obtain ⟨spans, free, hpool⟩ := hs.layout.pool
    rw [hpool.spans_eq]
    exact fun hspan => absurd ((hpool.ordinary x hspan).symm.trans hcomp) (by simp)
  descriptors x hx := h.count_freeDescriptors hl hx
  spans := h.spans_eq
  place x := ⟨congrArg Prod.fst (h.place x), congrArg (fun p => p.2.1) (h.place x)⟩
  calm := h.sound.calm

end

end Cache

namespace Engine

open Cache

/-- In every state that can be reached, clearing all pages ends after as many rounds as pages are watched, and leaves
nothing: all monitors are free, with blank write maps and empty buckets, no block is left, all entries of the link table
lead to the stubs, and all descriptors without a span are free, among them those of all companions. The spans are where
they were, and nothing was found amiss. Clearing one page clears its blocks and their parts on other pages and no others,
and the buckets and write maps of the other pages agree with the blocks that are left. -/
theorem clearAll_tears_down_and_clearRelease_spares {σ : Type} {p : Platform σ} (hp : p.Confined .free) {e : Engine σ}
    {phase : Phase} {log : List Compilation} {record : List MonitorId} (h : Visits .free p e phase log record) :
    (∀ k, e.cache.installed.length ≤ k → clearMonitors k e.cache = e.cache.clearAll) ∧
    TornDown e.cache e.cache.clearAll ∧
    ∀ m, (e.cache.monitor m).installed = true → PageGone m e.cache (e.cache.clearRelease m) := by
  obtain ⟨⟨hhoused, hcap⟩, -⟩ := h.keeps (Capped.upkeep _ fun _ => True) hp fun _ _ => trivial
  obtain ⟨l, hl, -⟩ := h.lineup hp
  have hs := hhoused.sound
  obtain ⟨hempty, hunwound, hrounds⟩ := clearMonitors_spec hl hs hcap (hl.length_le.trans (Nat.le_succ _))
  refine ⟨fun k hk => ?_, hunwound.tornDown hempty hs, fun m hm => pageGone_clearRelease hs hcap hm⟩
  rw [hl.installed_eq] at hk
  exact (clearMonitors_spec hl hs hcap hk).2.2.trans hrounds.symm

/-- A jump to itself goes with its page, and when all pages are cleared. -/
theorem clearAll_tears_down_and_clearRelease_spares_loop :
    ∃ (e : Engine Interpreter) (phase : Phase) (log : List Compilation) (record : List MonitorId),
      Visits .free Interpreter.platform e phase log record ∧ e.cache.installed = [0] ∧ (e.cache.block 0).owner = some 0 ∧
        clearMonitors 1 e.cache = e.cache.clearAll ∧ TornDown e.cache e.cache.clearAll ∧
        PageGone 0 e.cache (e.cache.clearRelease 0) ∧ ((e.cache.clearRelease 0).block 0).live = false := by
  obtain ⟨id, mem, c, code, hcreate, hc⟩ := Machine.exists_created
    (r := Compile.createBlock .flat32 0 (Machine.onePage 0 [0xEB, 0xFE]) Machine.watchedCache Machine.scantCode)
    (fun _ c _ => (c.monitor 0).installed && c.installed == [0] && (c.block 0).owner == some 0) (by decide +kernel)
  simp only [Bool.and_eq_true, beq_iff_eq] at hc
  obtain ⟨⟨hinst, hinstalled⟩, howner⟩ := hc
  obtain ⟨hprepare, -⟩ := Machine.prepareBlock_onePage (by decide) rfl hcreate
  obtain ⟨r, record, hr, hvisit⟩ :=
    (Machine.History.prepare (Machine.history_onePageMachine (R := .free) _ trivial _) hprepare).visits (Interpreter.platform_confined _)
  obtain rfl : ⟨c, code⟩ = r := Option.some.inj hr
  obtain ⟨hends, hdown, hpage⟩ := clearAll_tears_down_and_clearRelease_spares (Interpreter.platform_confined _) hvisit
  have hgone := hpage 0 hinst
  refine ⟨_, _, _, _, hvisit, hinstalled, howner, hends 1 (congrArg List.length hinstalled).le, hdown, hgone, ?_⟩
  by_contra hlive
  exact ((hgone.live 0).mp (Bool.of_not_eq_false hlive)).2 0 howner (part_self ..)

end Engine

end Recompiler
