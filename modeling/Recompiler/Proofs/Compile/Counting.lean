import Recompiler.Proofs.Compile.Filling
import Recompiler.Proofs.Compile.Origin

/-! What a compilation counts, where pages are not remapped. The second page of a block is then the one that follows its
first page, so the parts of blocks on a page come from two pages, and there are at most as many as two pages have bytes. A
count stays far below what its width can hold, also while bytes are being taken in. -/

namespace Recompiler

namespace Cache

variable {c c' : Cache} {n : MonitorId} {x : BlockId} {i : Nat} {U : Nat → Finset BlockId} {P : BlockId → Prop}

/-! ### Pages side by side -/

/-- Only blocks of two parts play a part. -/
theorem Adjacent.of_tenants (h : Adjacent c) (hc : Paired c')
    (hkeep : ∀ x y m, (c'.block x).companion = some y → (c'.block x).owner = some m →
      (c'.block x).tenant = (c.block x).tenant ∧ (c'.monitor m).page = (c.monitor m).page) : Adjacent c' := by
  intro a b m n hab ha hm hn
  obtain ⟨hta, hpa⟩ := hkeep a b m hab hm
  obtain ⟨htb, hpb⟩ := hkeep b a n (hc.symm a b hab) hn
  have hclaim := Block.claim_eq_of_tenant hta
  rw [hpa, hpb]
  exact h a b m n ((Block.companion_eq_of_tenant hta).symm.trans hab) ((Block.isCompanion_eq_of_claim hclaim).symm.trans ha)
    ((Block.owner_eq_of_claim hclaim).symm.trans hm)
    ((Block.owner_eq_of_claim (Block.claim_eq_of_tenant htb)).symm.trans hn)

/-- Blocks are cleared at most, apart from some that have one part only. -/
theorem Adjacent.evolve (h : Adjacent c) (hc : Paired c') (he : Evolves P c c')
    (hsingle : ∀ x, P x → (c'.block x).companion = none) : Adjacent c' := by
  refine h.of_tenants hc fun x y m hxy hm => ?_
  have hx : ¬P x := fun hx => absurd ((hsingle x hx).symm.trans hxy) (by simp)
  exact ⟨Block.tenant_eq_of_core (he.core x hx (live_iff.mpr ⟨m, hm⟩)), congrArg Prod.fst (he.station x m hx hm)⟩

theorem Adjacent.narrow (h : Adjacent c) (hc : Paired c') (hn : Narrows c c') : Adjacent c' :=
  h.evolve hc (.of_narrows hn fun _ => False) fun _ => False.elim

/-- A count never gets near the largest number it can hold. -/
theorem CappedAt.toNat_cover_add_one (hcap : CappedAt c U) (h : Orderly c) (hadj : Adjacent c) (n : MonitorId) (i : Nat) :
    ((c.monitor n).cover.getD i 0 + 1).toNat = ((c.monitor n).cover.getD i 0).toNat + 1 := by
  have hsub : (c.dependents n i \ U i).card ≤ (c.owned n).card :=
    Finset.card_le_card fun x hx => mem_owned.mpr (mem_dependents.mp (Finset.mem_sdiff.mp hx).1).1
  have hbound := ((hcap.le n i).trans hsub).trans (card_owned_le h hadj n)
  have hone : (1 : UInt16).toNat = 1 := rfl
  rw [UInt16.toNat_add, hone]
  unfold pageSize at hbound
  omega

end Cache

namespace Scan

open Cache

variable {site : Site} {s s' : Scan} {U : Nat → Finset BlockId} {n : Nat} {eip : UInt32}

/-! ### Scans without remapped pages -/

/-- The state of a scan where pages are not remapped. -/
structure Straight (site : Site) (s : Scan) : Prop extends Steady site s where
  mapped : s.mem.mapped = []
  linear : site.page = site.linearPage
  adjacent : s.cache.Adjacent

namespace Straight

theorem coverByte (h : Straight site s) (masked : Nat → Bool) (a : UInt32) : Straight site (s.coverByte site masked a) := by
  have hsteady := (h.toSteady.coverByte masked a).1
  by_cases hpage : pageOf a = site.linearPage
  · rw [coverByte_first hpage] at hsteady ⊢
    exact ⟨hsteady, h.mapped, h.linear, h.adjacent.takeByte _ _ _ _⟩
  · cases ho : s.companion with
    | some o =>
        rw [coverByte_second hpage ho] at hsteady ⊢
        exact ⟨hsteady, h.mapped, h.linear, h.adjacent.takeByte _ _ _ _⟩
    | none =>
        obtain ⟨cache, mem, companion⟩ := s
        obtain rfl : companion = none := ho
        simp only [Scan.coverByte, hpage, if_false] at hsteady ⊢
        exact h

theorem coverBytes (h : Straight site s) (masked : Nat → Bool) (a : UInt32) (offsets : List Nat) :
    Straight site (offsets.foldl (fun s i => s.coverByte site masked (a + i.toUInt32)) s) := by
  induction offsets generalizing s with
  | nil => exact h
  | cons i offsets ih =>
      rw [List.foldl_cons]
      exact ih (h.coverByte masked (a + i.toUInt32))

theorem paged (h : Straight site s) (hnone : s.companion = none) {page : UInt32} {code32 : Bool} {mem' : Memory} {c' : Cache}
    (hp : Paged (some site.monitor) page code32 s.mem s.cache mem' c') : Straight site ⟨c', mem', none⟩ :=
  ⟨(h.toSteady.paged hnone hp).1, (Tracked.mapped_eq_of_unreleased hp.memory).trans h.mapped, h.linear,
    h.adjacent.narrow hp.sound.paired hp.narrows⟩

/-- The monitor that is found is that of the next page. -/
theorem codePage {cache c' : Cache} {mem mem' : Memory} (h : Straight site ⟨cache, mem, none⟩)
    {r : Except PageFault (Option MonitorId)}
    (hsearch : cache.codePage mem (pageBase (site.linearPage + 1)) site.cpu.codeBig (some site.monitor) = .ok (r, mem', c')) :
    (∃ page, Paged (some site.monitor) page site.cpu.codeBig mem cache mem' c') ∧
      ∀ m, r = .ok (some m) → (c'.monitor m).installed = true ∧ (c'.monitor m).code32 = site.cpu.codeBig ∧
        (c'.monitor m).page = nextPage site.linearPage := by
  have hkeep : ∀ paddr, mem.resolve (pageBase (site.linearPage + 1)) false = .ok paddr → ∀ m,
      cache.monitorOf (pageOf paddr) = some m → (cache.monitor m).code32 ≠ site.cpu.codeBig → some site.monitor ≠ some m := by
    intro paddr _ m _ hcode heq
    obtain rfl := Option.some.inj heq
    exact hcode h.code32
  rcases codePage_spec h.sound hkeep hsearch with ⟨fault, -, rfl, rfl, rfl⟩ | ⟨paddr, hpaddr, hp, hm⟩
  · exact ⟨⟨0, .refl h.sound⟩, by simp⟩
  · obtain rfl := Memory.resolve_eq_of_ok h.mapped hpaddr
    refine ⟨⟨_, hp⟩, fun m hm' => ?_⟩
    obtain ⟨hfound, hcode⟩ := hm m hm'
    obtain ⟨hinst, hpage⟩ := (hp.sound.watches.byPage _ _).mp hfound
    exact ⟨hinst, hcode, hpage⟩

theorem join (h : Straight site s) (hnone : s.companion = none) {o : Companion}
    (hm : (s.cache.monitor o.monitor).installed = true) (hcode : (s.cache.monitor o.monitor).code32 = site.cpu.codeBig)
    (hpage : (s.cache.monitor o.monitor).page = nextPage site.linearPage) {d : Cache} (ha : Allocated s.cache o.block d) :
    Straight site ⟨(d.addCompanion o.monitor o.block).pair site.block o.block, s.mem, some o⟩ := by
  have hsteady := (h.toSteady.join hnone hm hcode ha).1
  have hblock := ha.block site.block (hsteady.second_ne rfl).symm
  have hpair : Pairable d o.monitor site.block :=
    ⟨by rw [ha.monitor]; exact hm, by rw [hblock]; exact h.live, by rw [hblock]; exact h.ordinary,
      by rw [hblock]; exact h.single hnone⟩
  have hadj : Adjacent d := h.adjacent.of_tenants ha.unlisted.paired fun x y m _ hm' =>
    ⟨Block.tenant_eq_of_core (ha.shrinks.core x (live_iff.mpr ⟨m, hm'⟩)), by rw [ha.monitor]⟩
  refine ⟨hsteady, h.mapped, h.linear, ha.unlisted.adjacent_pair hpair hadj fun k hk => ?_⟩
  rw [hblock] at hk
  obtain rfl : site.monitor = k := Option.some.inj (h.owner.symm.trans hk)
  rw [ha.monitor, ha.monitor, hpage, h.page, h.linear]

theorem needCompanion (h : Straight site s) {r : Except CoreError (Option Companion)}
    (hr : s.needCompanion site = .ok (r, s')) : Straight site s' := by
  cases needCompanion_cases hr with
  | known => exact h
  | refused hsearch | scarce hsearch =>
      obtain ⟨⟨page, hp⟩, -⟩ := h.codePage hsearch
      exact h.paged rfl hp
  | created hsearch halloc =>
      obtain ⟨⟨page, hp⟩, hm⟩ := h.codePage hsearch
      obtain ⟨hinst, hcode, hpage⟩ := hm _ rfl
      exact (h.paged rfl hp).join rfl hinst hcode hpage (allocate_spec hp.sound halloc)

theorem decodeAt (h : Straight site s) {linear : UInt32} {r : Except CoreError (Option Instruction)}
    (hr : s.decodeAt site eip linear = .ok (r, s')) : Straight site s' := by
  cases decodeAt_cases hr with
  | first | elsewhere => exact h
  | scarce hneed | alone hneed => exact h.needCompanion hneed
  | across _ _ hneed => exact h.needCompanion hneed
  | second _ hneed => exact h.needCompanion hneed

theorem fetch (h : Straight site s) {r : Except CoreError (Option Fetched)} (hr : s.fetch site eip = .ok (r, s')) :
    Straight site s' := by
  cases fetch_cases hr with
  | scarce hdecode | missing hdecode => exact h.decodeAt hdecode
  | found hdecode => exact (h.decodeAt hdecode).coverBytes _ _ _

theorem take (h : Straight site s) {r : Except CoreError Trace} (hr : Scan.take site n eip s = .ok (r, s')) :
    Straight site s' := by
  have htakes := take_cases hr
  clear hr
  induction htakes with
  | scarce hfetch | missing hfetch => exact h.fetch hfetch
  | terminal hfetch | full hfetch => exact h.fetch hfetch
  | more hfetch _ _ ih => exact ih (h.fetch hfetch)

end Straight

/-! ### Every byte that is taken in -/

/-- A scan that takes a trace comes to byte `i` of an instruction: it has taken in what stands before, and goes on with
this byte. -/
inductive ComesTo (site : Site) : Nat → UInt32 → Scan → Fetched → Nat → Scan → Prop where
  | here {n i : Nat} {eip : UInt32} {s s₁ : Scan} {inst : Instruction}
      (hdecode : s.decodeAt site eip (site.cpu.base .cs + eip) = .ok (.ok (some inst), s₁)) (hi : i < inst.len) :
      ComesTo site n eip s ⟨inst, hotImmediate site s₁.cache inst (site.cpu.base .cs + eip)⟩ i
        ((List.range i).foldl (fun s j => s.coverByte site
          (hot ⟨inst, hotImmediate site s₁.cache inst (site.cpu.base .cs + eip)⟩) (site.cpu.base .cs + eip + j.toUInt32)) s₁)
  | later {n i : Nat} {eip : UInt32} {s s₁ s' : Scan} {f f' : Fetched} (hfetch : s.fetch site eip = .ok (.ok (some f), s₁))
      (hends : ¬f.inst.endsBlock = true) (h : ComesTo site n (f.inst.nextIp site.cpu.codeBig) s₁ f' i s') :
      ComesTo site (n + 1) eip s f' i s'

variable {f : Fetched} {i : Nat}

theorem ComesTo.straight (h : ComesTo site n eip s f i s') (hs : Straight site s) : Straight site s' := by
  induction h with
  | here hdecode => exact (hs.decodeAt hdecode).coverBytes _ _ _
  | later hfetch _ _ ih => exact ih (hs.fetch hfetch)

theorem ComesTo.filling (h : ComesTo site n eip s f i s') (hs : Filling site U (site.cpu.base .cs + eip) s) :
    ∃ U' a, Filling site U' a s' := by
  induction h generalizing U with
  | here hdecode hi =>
      obtain ⟨⟨U', hfill, -⟩, hinst⟩ := hs.decodeAt hdecode
      obtain ⟨-, -, -, hwithin⟩ := hinst _ rfl
      obtain ⟨U'', hcovered, -⟩ := hfill.coverBytes _ fun j hj => hwithin j (hj.trans hi)
      exact ⟨U'', _, hcovered⟩
  | later hfetch _ _ ih =>
      obtain ⟨U', -, hnext, -⟩ := hs.fetch hfetch
      exact ih (hnext _ rfl)

end Scan

/-! ### The compilation as a whole -/

namespace Compilation

open Cache Scan

variable {k : Compilation} {c' : Cache} {U : Nat → Finset BlockId} {x : BlockId} {m : MonitorId} {page : UInt32} {i : Nat}

/-- The compilation comes to byte `i` of an instruction. -/
def ComesTo (k : Compilation) (f : Fetched) (i : Nat) (s : Scan) : Prop :=
  Scan.ComesTo k.site (Compile.limit k.scan.cache.settings) k.cpu.eip k.scan f i s

/-- The compilation counts the byte at an offset of a page: an instruction of the trace has it, and the block does not read
it when it runs. Only on its first page does a block read bytes. -/
def counts (k : Compilation) (page : UInt32) (i : Nat) : Bool :=
  k.trace.insts.any fun f => (List.range f.inst.len).any fun j =>
    pageOf (k.address f j) == page && pageOffset (k.address f j) == i && !(page == pageOf k.cpu.ipLinear && hot f i)

theorem Pending.straight (h : k.Pending) (hc : k.cache.Sound) (hmap : k.mem.mapped = []) (hadj : k.cache.Adjacent) :
    Straight k.site k.scan := by
  have hsite := h.sited hc
  refine ⟨h.steady hc, hmap, ?_, hadj.evolve hsite.sound.paired hsite.evolves ?_⟩
  · have hpage : k.site.page = (k.cache.monitor k.monitor).page := hsite.page
    have hlinear : k.site.linearPage = pageOf k.cpu.ipLinear := hsite.linearPage
    rw [hpage, hlinear, h.page_eq hmap]
  · rintro x rfl
    exact hsite.single

/-- No count wraps around when a byte is taken in. -/
theorem Pending.toNat_cover_add_one (h : k.Pending) (hc : k.cache.Sound) (hmap : k.mem.mapped = []) (hadj : k.cache.Adjacent)
    (hcap : k.cache.CappedAt U) {f : Fetched} {s : Scan} (hcomes : k.ComesTo f i s) (n : MonitorId) (j : Nat) :
    ((s.cache.monitor n).cover.getD j 0 + 1).toNat = ((s.cache.monitor n).cover.getD j 0).toNat + 1 := by
  have hstraight := Scan.ComesTo.straight hcomes (h.straight hc hmap hadj)
  obtain ⟨U', a, hfill⟩ := Scan.ComesTo.filling hcomes (h.filling hc hcap)
  exact hfill.capped.toNat_cover_add_one hfill.sound.toOrderly hstraight.adjacent n j

/-- What was counted for a part of the block is a byte of the trace on its page. -/
theorem Pending.counts_of_counts (h : k.Pending) (hc : k.cache.Sound) {s : Scan} (hs : Straight k.site s) {f : Fetched}
    (hf : f ∈ k.trace.insts) (hcount : Counts k.site s f x i) (hm : (s.cache.block x).owner = some m) :
    k.counts (s.cache.monitor m).page i = true := by
  have hsite := h.sited hc
  have hlinear : k.site.linearPage = pageOf k.cpu.ipLinear := hsite.linearPage
  obtain ⟨j, hj, hi, ⟨n, hon⟩, hcold⟩ := hcount
  have haddr : k.site.cpu.base .cs + f.inst.ip + j.toUInt32 = k.address f j := by
    rw [show k.site.cpu = k.cpu from hsite.cpu_eq]
    rfl
  rw [haddr] at hi hon
  have hpage : pageOf (k.address f j) = (s.cache.monitor m).page ∧
      ((s.cache.monitor m).page = pageOf k.cpu.ipLinear → hot f i = false) := by
    rcases hon with ⟨rfl, -, hpage⟩ | ⟨o, ho, rfl, -, hpage⟩
    · obtain rfl : k.site.monitor = m := Option.some.inj (hs.owner.symm.trans hm)
      rw [hpage, hs.page, hs.linear]
      exact ⟨rfl, fun _ => hcold rfl⟩
    · have hnext := hs.adjacent _ _ _ _ (hs.second o ho) hs.ordinary hs.owner hm
      rw [hs.page, hs.linear] at hnext
      rw [hpage, hnext, ← hlinear]
      exact ⟨rfl, fun heq => absurd heq (nextPage_ne _)⟩
  rw [counts, List.any_eq_true]
  refine ⟨f, hf, List.any_eq_true.mpr ⟨j, List.mem_range.mpr hj, ?_⟩⟩
  simpa [hpage.1, hi, imp_iff_not_or] using hpage.2

end Compilation

end Recompiler
