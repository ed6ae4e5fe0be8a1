import Recompiler.Proofs.Cache.Enlist

/-! Closing a block. The unused end of its span becomes a span of its own, and the cursor moves on. No block is
touched by that, and the code that was written stays within the span. -/

namespace Recompiler

theorem or_le_add (a b : Nat) : a ||| b ≤ a + b := by
  induction a using Nat.strongRecOn generalizing b with
  | _ a ih =>
      by_cases ha : a = 0
      · simp [ha]
      · have hhalf := ih (a / 2) (by omega) (b / 2)
        rw [← Nat.or_div_two] at hhalf
        have hbit : (a ||| b) % 2 ≤ a % 2 + b % 2 := by
          have hmod : (a ||| b) % 2 = a % 2 ||| b % 2 := Nat.or_mod_two_pow (n := 1)
          rw [hmod]
          rcases Nat.mod_two_eq_zero_or_one a with h | h <;> rcases Nat.mod_two_eq_zero_or_one b with h' | h' <;>
            simp [h, h']
        omega

namespace Cache

variable {c c' d : Cache} {id rest : BlockId} {E : Finset BlockId} {written : Nat}

theorem le_splitSize (written align : Nat) : written ≤ splitSize written align := by
  have hor : max written 1 - 1 ≤ max written 1 - 1 ||| (align - 1) := Nat.left_le_or
  rw [splitSize]
  omega

theorem splitSize_pos (written align : Nat) : 0 < splitSize written align :=
  Nat.succ_pos _

theorem splitSize_lt {align size : Nat} (halign : 0 < align) (h : written + align < size) : splitSize written align < size := by
  have hor := or_le_add (max written 1 - 1) (align - 1)
  rw [splitSize]
  omega

/-! ### Splitting a span -/

/-- The descriptors after the end of a span was split off. -/
structure Split (id rest : BlockId) (size : Nat) (d c' : Cache) : Prop where
  same : ShellSame d c'
  freeHead : c'.freeHead = d.freeHead
  linkTable : c'.linkTable = d.linkTable
  stats : c'.stats = d.stats
  monitor : ∀ n, c'.monitor n = d.monitor n
  front : c'.block id = { d.block id with arenaNext := some rest, codeSize := size }
  back : c'.block rest =
    { d.block rest with
      codeStart := (d.block id).codeStart + size, codeSize := (d.block id).codeSize - size
      arenaNext := (d.block id).arenaNext, bucket := 1 }
  block : ∀ x, x ≠ id → x ≠ rest → c'.block x = d.block x

section

variable {size : Nat} (hsplit : Split id rest size d c')
include hsplit

theorem Split.claim (x : BlockId) (hx : x ≠ rest) : (c'.block x).claim = (d.block x).claim := by
  by_cases hxid : x = id
  · rw [hxid, hsplit.front]
    rfl
  · rw [hsplit.block x hxid hx]

theorem Split.live (x : BlockId) : (c'.block x).live = (d.block x).live := by
  by_cases hx : x = rest
  · rw [hx, hsplit.back]
    rfl
  · exact Block.live_eq_of_claim (hsplit.claim x hx)

theorem Split.linkSlot (x : BlockId) (k : Slot) : c'.linkSlot x k = d.linkSlot x k := by
  rw [Cache.linkSlot, Cache.linkSlot]
  by_cases hx : x = id
  · rw [hx, hsplit.front]
  · by_cases hxrest : x = rest
    · rw [hxrest, hsplit.back]
    · rw [hsplit.block x hx hxrest]

theorem Pool.split (hu : Unlisted d rest) {spans free : List BlockId}
    (h : Pool d (fun b => (d.block b).arenaNext) (fun b => (d.block b).codeSize) spans free (some rest)) (hid : id ∈ spans)
    (hspan : rest ∉ spans) (hfree : rest ∉ free) (hpos : 0 < size) (hsize : size < (d.block id).codeSize) :
    ∃ spans', Pool c' (fun b => (c'.block b).arenaNext) (fun b => (c'.block b).codeSize) spans' free none := by
  obtain ⟨before, after, rfl, hbefore, hafter⟩ := h.spanPath.tail_of_mem hid
  have hnodup := h.spanPath.nodup
  simp only [List.nodup_append, List.nodup_cons, List.mem_cons, forall_eq_or_imp] at hnodup
  obtain ⟨-, ⟨hidafter, -⟩, hapart⟩ := hnodup
  have hold : ∀ x ∈ before ++ id :: after, x ≠ id → c'.block x = d.block x := fun x hx hxid =>
    hsplit.block x hxid fun h' => hspan (h' ▸ hx)
  have hbefore' : ∀ x ∈ before, c'.block x = d.block x := fun x hx =>
    hold x (List.mem_append_left _ hx) (hapart x hx).1
  have hafter' : ∀ x ∈ after, c'.block x = d.block x := fun x hx =>
    hold x (by simp [hx]) fun h' => hidafter (h' ▸ hx)
  have hstart : ∀ x ∈ before ++ id :: after, (c'.block x).codeStart = (d.block x).codeStart := by
    intro x hx
    by_cases hxid : x = id
    · rw [hxid, hsplit.front]
    · rw [hold x hx hxid]
  have hmem : ∀ x, x ∈ before ++ id :: rest :: after ↔ x = rest ∨ x ∈ before ++ id :: after := by
    intro x
    simp only [List.mem_append, List.mem_cons]
    tauto
  refine ⟨before ++ id :: rest :: after, ?_, ?_, fun x hx => ?_, fun x hx => ?_, fun x hx => ?_, fun x hx => ?_,
    fun x hx => ?_, fun x hx => ?_, fun x hx _ => ?_, ?_, ?_, ?_⟩
  · refine Path.append_iff.mpr ⟨some id, hbefore.congr fun x hx => by rw [hbefore' x hx], rfl, ?_⟩
    dsimp only
    rw [hsplit.front]
    refine ⟨rfl, ?_⟩
    dsimp only
    rw [hsplit.back]
    exact hafter.congr fun x hx => by rw [hafter' x hx]
  · rw [hsplit.freeHead]
    refine h.freePath.congr fun x hx => ?_
    have hxid : x ≠ id := fun h' => h.apart id hid (h' ▸ hx)
    rw [hsplit.block x hxid fun h' => hfree (h' ▸ hx)]
  · rcases (hmem x).mp hx with rfl | hx
    · exact hfree
    · exact h.apart x hx
  · rw [hsplit.same.size]
    rcases (hmem x).mp hx with rfl | hx
    · exact hu.lt
    · exact h.spans_lt x hx
  · rw [hsplit.same.size]
    exact h.free_lt x hx
  · rw [hsplit.live]
    exact h.free_dead x hx
  · rcases (hmem x).mp hx with rfl | hx
    · rw [hsplit.back]
      rfl
    · rw [Block.isCompanion_eq_of_claim (hsplit.claim x fun h' => hspan (h' ▸ hx))]
      exact h.ordinary x hx
  · obtain ⟨hx, hord⟩ := hx
    rw [hsplit.live] at hx
    rw [Block.isCompanion_eq_of_claim (hsplit.claim x (hu.ne hx))] at hord
    exact (hmem x).mpr (.inr (h.span_of_live x ⟨hx, hord⟩))
  · rw [hsplit.same.size] at hx
    rw [hmem]
    by_cases hxrest : x = rest
    · exact .inl (.inl hxrest)
    · rw [hsplit.live, Block.isCompanion_eq_of_claim (hsplit.claim x hxrest)]
      rcases h.placed x hx fun h' => hxrest (Option.some.inj h').symm with hx' | hx' | hx'
      · exact .inl (.inr hx')
      · exact .inr (.inl hx')
      · exact .inr (.inr hx')
  · rw [hsplit.same.active]
    exact (hmem _).mpr (.inr h.active)
  · rw [hsplit.same.blocksStart, hsplit.same.settings]
    refine h.tiled.split ?_ ?_ hstart (fun x hx => ?_) ?_ ?_
    · rw [hsplit.front]
      exact hpos
    · rw [hsplit.front]
      exact hsize
    · rcases List.mem_append.mp hx with hx | hx
      · rw [hbefore' x hx]
      · rw [hafter' x hx]
    · rw [hsplit.back, hsplit.front]
    · rw [hsplit.back, hsplit.front]
  · rw [hsplit.same.active, hstart _ h.active, hsplit.same.settings, hsplit.same.blocksStart]
    exact h.cursor

/-- The back half has no block, so only its bucket and place change. -/
theorem Split.tenant (hu : Unlisted d rest) (x : BlockId) :
    (c'.block x).tenant = ((d.modifyBlock rest fun b => { b with bucket := 1 }).block x).tenant := by
  by_cases hx : x = rest
  · rw [hx, hsplit.back, block_modifyBlock_self hu.lt]
    rfl
  · rw [block_modifyBlock_ne _ hx]
    by_cases hxid : x = id
    · rw [hxid, hsplit.front]
      rfl
    · rw [hsplit.block x hxid hx]

theorem Sound.split (hu : Unlisted d rest) (hactive : d.active = id) (hpos : 0 < size)
    (hsize : size < (d.block id).codeSize) : Sound c' := by
  have hdead : (d.block rest).live = false := by rw [hu.blank]; rfl
  have hnone : (d.block rest).owner = none := by rw [hu.blank]
  have horderly : Orderly (d.modifyBlock rest fun b => { b with bucket := 1 }) :=
    hu.toOrderly.rewriteDead hdead hnone (by rw [hu.blank])
  have htenant := hsplit.tenant hu
  have hclaim := fun x => Block.claim_eq_of_tenant (htenant x)
  have hmonitor : ∀ n, c'.monitor n = (d.modifyBlock rest fun b => { b with bucket := 1 }).monitor n := hsplit.monitor
  have hsame := hsplit.same
  obtain ⟨spans, free, hp, hspan, hfree⟩ := hu.pool
  obtain ⟨spans', hp'⟩ := hp.split hsplit hu (hactive ▸ hp.active) hspan hfree hpos hsize
  have hback := ShellSame.modifyBlock d rest fun b => { b with bucket := 1 }
  refine ⟨⟨⟨?_, horderly.paired.congr htenant⟩, hsame.settings ▸ hu.valid, ?_⟩, ⟨⟨spans', free, hp'⟩, ?_⟩, ?_⟩
  · refine horderly.registry.congr hsame.settings hclaim (hsame.monitorsSize.trans hback.monitorsSize.symm)
      (fun n => by rw [hmonitor]) (fun x n hx => ?_) fun n => ?_
    · rw [hmonitor]
      exact horderly.registry.installed x n hx
    · rw [hmonitor]
      exact horderly.registry.active n
  · exact hu.watches.congr hsame.byPage hsame.freeMonitors hsame.newest hsame.oldest hsame.monitorsSize fun n => by
      rw [hsplit.monitor]
  · have hstubs := congrArg Cache.stubs hsame.shell
    have hbase := congrArg Cache.arenaBase hsame.shell
    refine hu.linked.congr hsame.size hsplit.linkTable hstubs hbase hsplit.linkSlot (fun x hx => ?_) fun x hx => ?_
    · by_cases hxid : x = id
      · rw [hxid, hsplit.front]
      · rw [hsplit.block x hxid (hu.ne hx.1)]
    · rw [Runnable, hsplit.live, Block.isCompanion_eq_of_claim (hsplit.claim x (hu.ne hx.1))]
      exact hx
  · rw [hsplit.stats]
    exact hu.calm

theorem Exact.split (he : Exact d E) (hu : Unlisted d rest) : Exact c' E := by
  have hdead : (d.block rest).live = false := by rw [hu.blank]; rfl
  have hnone : (d.block rest).owner = none := by rw [hu.blank]
  have hexact : Exact (d.modifyBlock rest fun b => { b with bucket := 1 }) E :=
    he.rewriteDead hdead hnone hu.paired (by rw [hu.blank])
  have htenant := hsplit.tenant hu
  have hmonitor : ∀ n, c'.monitor n = (d.modifyBlock rest fun b => { b with bucket := 1 }).monitor n := hsplit.monitor
  refine ⟨hexact.adjacent.congr htenant fun _ n _ => by rw [hmonitor], ?_⟩
  exact hexact.census.congr (fun x => Block.claim_eq_of_tenant (htenant x)) fun n hn =>
    ⟨by rw [← hmonitor]; exact hn, by rw [hmonitor]⟩

theorem CappedAt.split {U : Nat → Finset BlockId} (h : CappedAt d U) (hu : Unlisted d rest) : CappedAt c' U := by
  have hdead : (d.block rest).live = false := by rw [hu.blank]; rfl
  have hnone : (d.block rest).owner = none := by rw [hu.blank]
  have hcap : CappedAt (d.modifyBlock rest fun b => { b with bucket := 1 }) U := h.rewriteDead hdead hnone
  exact hcap.congr (fun x => Block.claim_eq_of_tenant (hsplit.tenant hu x)) fun n => congrArg Monitor.cover (hsplit.monitor n)

end

/-! ### Closing -/

/-- What closing the block `id` leaves as it was. -/
structure Kept (id : BlockId) (c c' : Cache) : Prop where
  size : c'.blocks.size = c.blocks.size
  tableSize : c'.linkTable.size = c.linkTable.size
  monitorsSize : c'.monitors.size = c.monitors.size
  core : ∀ x, x ≠ id → (c'.block x).live = true → (c'.block x).core = (c.block x).core
  tenant : (c'.block id).tenant = (c.block id).tenant
  codeStart : (c'.block id).codeStart = (c.block id).codeStart
  monitor : ∀ n, c'.monitor n = c.monitor n

theorem capacity_of_next (h : (c.block id).arenaNext = some rest) : c.capacity id = (c.block id).codeSize := by
  rw [capacity, h]

namespace Kept

theorem refl (id : BlockId) (c : Cache) : Kept id c c :=
  ⟨rfl, rfl, rfl, fun _ _ _ => rfl, rfl, rfl, fun _ => rfl⟩

theorem trans {c'' : Cache} (h : Kept id c c') (h' : Kept id c' c'') : Kept id c c'' where
  size := h'.size.trans h.size
  tableSize := h'.tableSize.trans h.tableSize
  monitorsSize := h'.monitorsSize.trans h.monitorsSize
  core x hx hlive := by
    have hcore := h'.core x hx hlive
    exact hcore.trans (h.core x hx (Block.live_eq_of_core hcore ▸ hlive))
  tenant := h'.tenant.trans h.tenant
  codeStart := h'.codeStart.trans h.codeStart
  monitor n := (h'.monitor n).trans (h.monitor n)

end Kept

/-- What a step of closing the block `id` achieves; `written` bytes still fit it. -/
structure Settled (id : BlockId) (written : Nat) (c c' : Cache) : Prop where
  sound : Sound c'
  exact : ∀ E, Exact c E → Exact c' E
  capped : ∀ U, CappedAt c U → CappedAt c' U
  kept : Kept id c c'
  room : written ≤ c'.capacity id

theorem trim_spec (h : Sound c) (hactive : c.active = id) (hroom : written ≤ c.capacity id)
    (htrim : c.trim id written = .ok c') : Settled id written c c' ∧ ShellSame c c' := by
  unfold trim at htrim
  dsimp only at htrim
  split at htrim
  · rename_i hlarge
    split at htrim
    · cases htrim
    · rename_i rest d halloc
      cases htrim
      have ha := allocate_spec h halloc
      have hactive' : d.active = id := ha.shrinks.same.active.trans hactive
      obtain ⟨hidrest, hidlt⟩ : id ≠ rest ∧ id < d.blocks.size := by
        obtain ⟨spans, free, hp, hspan, -⟩ := ha.unlisted.pool
        exact ⟨fun h' => hspan (h' ▸ hactive' ▸ hp.active), hp.spans_lt id (hactive' ▸ hp.active)⟩
      have hblock := ha.block id hidrest
      rw [← hblock, ← ha.shrinks.same.settings] at hlarge
      rw [← hblock]
      have hsize := splitSize_lt ha.unlisted.valid.sizes.2.1 hlarge
      have hle := le_splitSize written d.settings.align
      have hpos := splitSize_pos written d.settings.align
      generalize splitSize written d.settings.align = size at hsize hle hpos
      generalize hfinal : (d.modifyBlock rest fun r =>
        { r with
          codeStart := (d.block id).codeStart + size, codeSize := (d.block id).codeSize - size
          arenaNext := (d.block id).arenaNext, bucket := 1 }).modifyBlock id (fun b =>
        { b with arenaNext := some rest, codeSize := size }) = e
      have hsplit : Split id rest size d e := by
        rw [← hfinal]
        refine ⟨(ShellSame.modifyBlock d rest _).trans (.modifyBlock _ id _), rfl, rfl, rfl, fun _ => rfl, ?_, ?_,
          fun x hx hx' => ?_⟩
        · rw [block_modifyBlock_self (by rwa [size_modifyBlock]), block_modifyBlock_ne _ hidrest]
        · rw [block_modifyBlock_ne _ hidrest.symm, block_modifyBlock_self ha.unlisted.lt]
        · rw [block_modifyBlock_ne _ hx, block_modifyBlock_ne _ hx']
      have hsame := ha.shrinks.same.trans hsplit.same
      have hnext : (e.block id).arenaNext = some rest := by rw [hsplit.front]
      refine ⟨⟨.split hsplit ha.unlisted hactive' hpos hsize, fun E he => (ha.exact E he).split hsplit ha.unlisted,
        fun U hcap => (ha.capped U hcap).split hsplit ha.unlisted,
        ⟨hsame.size, hsame.tableSize, hsame.monitorsSize, fun x hx hlive => ?_, ?_, ?_,
          fun n => (hsplit.monitor n).trans (ha.monitor n)⟩, ?_⟩, hsame⟩
      · have hxrest : x ≠ rest := by
          rintro rfl
          rw [hsplit.live, ha.unlisted.blank] at hlive
          exact absurd hlive (by decide)
        rw [hsplit.block x hx hxrest, ha.block x hxrest]
      · rw [hsplit.front, hblock]
        rfl
      · rw [hsplit.front, hblock]
      · rw [capacity_of_next hnext, hsplit.front]
        exact hle
  · cases htrim
    exact ⟨⟨h, fun _ he => he, fun _ hcap => hcap, .refl id c, hroom⟩, .refl c⟩

/-- A cache without its cursor, the open block, and the parts that describe single blocks and pages. -/
def idleShell (c : Cache) : Cache :=
  { c.shell with active := 0, building := none }

/-- The cursor may stand at any span that leaves room for a block. -/
theorem Sound.moveTo (h : Sound c) {next : BlockId} {s : CacheStats} (hs : s.anomalies = c.stats.anomalies)
    (hnext : ∀ spans free, Pool c (fun b => (c.block b).arenaNext) (fun b => (c.block b).codeSize) spans free none →
      next ∈ spans ∧ (c.block next).codeStart + c.settings.maxBlockSize ≤ c.blocksStart + c.settings.cacheSize) :
    Sound { c with active := next, stats := s } := by
  obtain ⟨spans, free, hp⟩ := h.layout.pool
  obtain ⟨hmem, hcursor⟩ := hnext spans free hp
  refine ⟨⟨⟨h.registry.congr rfl (fun _ => rfl) rfl (fun _ => rfl) h.registry.installed h.registry.active,
    h.paired.congr fun _ => rfl⟩, h.valid, h.watches.congr rfl rfl rfl rfl rfl fun _ => rfl⟩, ⟨⟨spans, free, ?_⟩, ?_⟩, hs.trans h.calm⟩
  · exact ⟨hp.spanPath, hp.freePath, hp.apart, hp.spans_lt, hp.free_lt, hp.free_dead, hp.ordinary, hp.span_of_live, hp.placed,
      hmem, hp.tiled, hcursor⟩
  · exact h.layout.linked.congr rfl rfl rfl rfl (fun _ _ => rfl) (fun _ _ => rfl) fun _ hx => hx

theorem Sound.advance (h : Sound c) (hactive : c.active = id) : Sound (c.advance id) := by
  have hsizes := h.valid.sizes
  unfold Cache.advance
  dsimp only
  split
  · rename_i next hnext
    obtain ⟨hnext, hwrap⟩ := Option.filter_eq_some_iff.mp hnext
    refine h.moveTo rfl fun spans free hp => ⟨?_, ?_⟩
    · obtain ⟨before, after, rfl, -, hafter⟩ := hp.spanPath.tail_of_mem (hactive ▸ hp.active)
      cases after with
      | nil => exact absurd (hnext.symm.trans (Path.nil_iff.mp hafter)) (by simp)
      | cons a after =>
          obtain rfl : next = a := Option.some.inj (hnext.symm.trans hafter.1)
          simp
    · have hle := of_decide_eq_true hwrap
      omega
  · refine h.moveTo rfl fun spans free hp => ?_
    cases spans with
    | nil => exact absurd (Path.nil_iff.mp hp.spanPath) (by simp)
    | cons a spans =>
        obtain rfl : firstSpan = a := Option.some.inj hp.spanPath.1
        have hstart : (c.block firstSpan).codeStart = c.blocksStart := hp.tiled.1
        exact ⟨List.mem_cons_self, by omega⟩

theorem Exact.advance (h : Exact c E) (id : BlockId) : Exact (c.advance id) E := by
  unfold Cache.advance
  dsimp only
  split <;> exact ⟨h.adjacent.congr (fun _ => rfl) fun _ _ _ => rfl, h.census.congr (fun _ => rfl) fun _ hn => ⟨hn, rfl⟩⟩

theorem CappedAt.advance {U : Nat → Finset BlockId} (h : CappedAt c U) (id : BlockId) : CappedAt (c.advance id) U := by
  unfold Cache.advance
  dsimp only
  split <;> exact ⟨h.size, h.le⟩

theorem Kept.advance (c : Cache) (id : BlockId) : Kept id c (c.advance id) ∧ (c.advance id).idleShell = c.idleShell ∧
    (c.advance id).building = c.building ∧ (c.advance id).capacity id = c.capacity id := by
  unfold Cache.advance
  dsimp only
  split <;> exact ⟨⟨rfl, rfl, rfl, fun _ _ _ => rfl, rfl, rfl, fun _ => rfl⟩, rfl, rfl, rfl⟩

/-- What closing the open block does. -/
structure Closed (id : BlockId) (written : Nat) (c c' : Cache) : Prop extends Settled id written c c' where
  idle : c'.idleShell = c.idleShell
  building : c'.building = none
  fits : written ≤ c.capacity id

theorem finish_spec (h : Sound c) (hactive : c.active = id) (hfinish : c.finish id written = (.ok (), c')) :
    Closed id written c c' := by
  unfold finish at hfinish
  have hcosmetic := Cosmetic.building c none
  have hopen := h.congr hcosmetic
  dsimp only at hfinish
  generalize hd : ({ c with building := none } : Cache) = d at hfinish hopen hcosmetic
  have hactive' : d.active = id := by rw [← hd]; exact hactive
  have hkeep : Kept id c d := by rw [← hd]; exact ⟨rfl, rfl, rfl, fun _ _ _ => rfl, rfl, rfl, fun _ => rfl⟩
  have hidle : d.idleShell = c.idleShell := by rw [← hd]; rfl
  have hbuilding : d.building = none := by rw [← hd]
  have hcapacity : d.capacity id = c.capacity id := by rw [← hd]; rfl
  split at hfinish
  · cases hfinish
  · rename_i hroom
    split at hfinish
    · cases hfinish
    · rename_i e htrim
      cases hfinish
      obtain ⟨hsettled, hsame⟩ := trim_spec hopen hactive' (Nat.le_of_not_lt hroom) htrim
      obtain ⟨hkept', hidle', hbuilding', hcap'⟩ := Kept.advance e id
      refine ⟨⟨hsettled.sound.advance (hsame.active.trans hactive'),
        fun E he => (hsettled.exact E (he.congr hcosmetic)).advance id,
        fun U hcap => (hsettled.capped U (hcap.cosmetic hcosmetic)).advance id, (hkeep.trans hsettled.kept).trans hkept', ?_⟩, ?_, ?_,
        hcapacity ▸ Nat.le_of_not_lt hroom⟩
      · rw [hcap']
        exact hsettled.room
      · rw [hidle', ← hidle]
        exact congrArg (fun s : Cache => { s with active := 0, building := none }) hsame.shell
      · rw [hbuilding', hsame.building, hbuilding]

theorem finish_error {e : CoreError} (hfinish : c.finish id written = (.error e, c')) : c' = { c with building := none } := by
  unfold finish at hfinish
  dsimp only at hfinish
  split at hfinish
  · cases hfinish
    rfl
  · split at hfinish
    · cases hfinish
      rfl
    · cases hfinish

/-- Two caches that differ at most in the cursor, the open block, links and pages; blocks outside a set are at most
cleared. -/
structure Evolves (P : BlockId → Prop) (c c' : Cache) : Prop where
  fixed : c'.idleShell.offPages = c.idleShell.offPages
  size : c'.blocks.size = c.blocks.size
  tableSize : c'.linkTable.size = c.linkTable.size
  monitorsSize : c'.monitors.size = c.monitors.size
  core : ∀ x, ¬P x → (c'.block x).live = true → (c'.block x).core = (c.block x).core
  station : ∀ x n, ¬P x → (c'.block x).owner = some n → (c'.monitor n).station = (c.monitor n).station

namespace Evolves

variable {P Q : BlockId → Prop} {c'' : Cache}

theorem of_narrows (h : Narrows c c') (P : BlockId → Prop) : Evolves P c c' :=
  ⟨congrArg (fun s : Cache => { s with active := 0, building := none }) h.fixed, h.size, h.tableSize, h.monitorsSize,
    fun x _ => h.core x, fun x n _ => h.station x n⟩

theorem trans (h : Evolves P c c') (h' : Evolves Q c' c'')
    (hPQ : ∀ x, ¬Q x → (c''.block x).live = true → ¬P x) : Evolves Q c c'' where
  fixed := h'.fixed.trans h.fixed
  size := h'.size.trans h.size
  tableSize := h'.tableSize.trans h.tableSize
  monitorsSize := h'.monitorsSize.trans h.monitorsSize
  core x hx hlive := by
    have hcore := h'.core x hx hlive
    exact hcore.trans (h.core x (hPQ x hx hlive) (Block.live_eq_of_core hcore ▸ hlive))
  station x n hx hn := by
    have hlive := live_iff.mpr ⟨n, hn⟩
    have hcore := h'.core x hx hlive
    exact (h'.station x n hx hn).trans (h.station x n (hPQ x hx hlive) (Block.owner_eq_of_core hcore ▸ hn))

end Evolves

/-- The open block was given up. -/
structure GivenUp (id : BlockId) (c c' : Cache) : Prop where
  sound : Sound c'
  exact : Exact c ∅ → Exact c' ∅
  capped : ∀ U, CappedAt c U → CappedAt c' U
  evolves : Evolves (fun _ => False) c c'
  dead : (c'.block id).live = false
  part : ∀ o, (c.block id).companion = some o → (c'.block o).live = false

theorem givenUp_clearBlock (h : Sound c) (hlive : (c.block id).live = true) :
    GivenUp id c ({ c with building := none }.clearBlock id) := by
  have hcosmetic := Cosmetic.building c none
  have hopen := h.congr hcosmetic
  have hlive' : (({ c with building := none } : Cache).block id).live = true := hlive
  have hshrinks := Shrinks.clearBlock hopen.toArranged hlive'
  have hc := hopen.clearable hlive'
  have hfixed := congrArg (fun s : Cache => { s.offPages with active := 0, building := none }) hshrinks.same.shell
  refine ⟨hopen.clearBlock hlive', fun he => (he.congr hcosmetic).clearBlock hopen.toArranged hlive' (by simp),
    fun U hcap => (hcap.cosmetic hcosmetic).clearBlock hopen.toArranged hlive',
    ⟨hfixed, hshrinks.same.size, hshrinks.same.tableSize, hshrinks.same.monitorsSize,
    fun x _ => hshrinks.core x, fun _ n _ _ => Monitor.station_eq_of_core (hshrinks.monitor n)⟩, ?_, fun o ho => ?_⟩
  · rw [Bool.eq_false_iff, Ne, hc.live_clearBlock]
    exact fun h' => h'.1 (part_self _ id)
  · rw [Bool.eq_false_iff, Ne, hc.live_clearBlock]
    exact fun h' => h'.1 (.inr ho)

end Cache

end Recompiler
