import Recompiler.Proofs.Compile.Taken
import Recompiler.Proofs.Guest.Decoding
import Recompiler.Proofs.Cache.Count
import Recompiler.Proofs.Cache.Pages

/-! Taking a trace. Every byte of every instruction is taken in by the block on its page, the part on the second page
being created when the first instruction reaches it. Other blocks are at most cleared. -/

namespace Recompiler

theorem Memory.resolve_eq_of_ok {mem : Memory} (hmap : mem.mapped = []) {linear paddr : UInt32} {write : Bool}
    (h : mem.resolve linear write = .ok paddr) : paddr = linear := by
  unfold resolve at h
  rw [hmap] at h
  dsimp only at h
  split at h
  · cases h
  · split at h
    · cases h
    · exact (Except.ok.inj h).symm

namespace Cache

variable {c c' c'' : Cache} {P Q : BlockId → Prop} {id x : BlockId} {a : UInt32}

/-- Blocks outside a set are at most cleared. -/
structure NarrowsOff (P : BlockId → Prop) (c c' : Cache) : Prop where
  fixed : c'.shell.offPages = c.shell.offPages
  size : c'.blocks.size = c.blocks.size
  tableSize : c'.linkTable.size = c.linkTable.size
  monitorsSize : c'.monitors.size = c.monitors.size
  core : ∀ x, ¬P x → (c'.block x).live = true → (c'.block x).core = (c.block x).core
  station : ∀ x n, ¬P x → (c'.block x).owner = some n → (c'.monitor n).station = (c.monitor n).station

namespace NarrowsOff

theorem of_narrows (h : Narrows c c') (P : BlockId → Prop) : NarrowsOff P c c' :=
  ⟨h.fixed, h.size, h.tableSize, h.monitorsSize, fun x _ => h.core x, fun x n _ => h.station x n⟩

theorem trans (h : NarrowsOff P c c') (h' : NarrowsOff Q c' c'') (hPQ : ∀ x, P x → Q x) : NarrowsOff Q c c'' where
  fixed := h'.fixed.trans h.fixed
  size := h'.size.trans h.size
  tableSize := h'.tableSize.trans h.tableSize
  monitorsSize := h'.monitorsSize.trans h.monitorsSize
  core x hx hlive := by
    have hcore := h'.core x hx hlive
    exact hcore.trans (h.core x (fun hP => hx (hPQ x hP)) (Block.live_eq_of_core hcore ▸ hlive))
  station x n hx hn := by
    have hcore := h'.core x hx (live_iff.mpr ⟨n, hn⟩)
    exact (h'.station x n hx hn).trans (h.station x n (fun hP => hx (hPQ x hP)) (Block.owner_eq_of_core hcore ▸ hn))

end NarrowsOff

/-- The byte at an address belongs to a block: it lies on the page and in the range of one of its parts. -/
def Guards (c : Cache) (id : BlockId) (a : UInt32) : Prop :=
  ∃ x m, c.Part id x ∧ (c.block x).owner = some m ∧ (c.monitor m).page = pageOf a ∧
    (c.block x).start ≤ pageOffset a ∧ pageOffset a ≤ (c.block x).last

/-- A block reads the byte at an address when it runs. -/
def Reads (c : Cache) (id : BlockId) (a : UInt32) : Prop :=
  ∃ m, (c.block id).owner = some m ∧ (c.monitor m).page = pageOf a ∧ (c.block id).masked (pageOffset a) = true

end Cache

namespace Scan

open Cache

variable {site : Site} {E : Finset BlockId} {s s' s'' : Scan} {linear : UInt32}

/-- The blocks a scan works on. -/
def Involved (site : Site) (s : Scan) (x : BlockId) : Prop :=
  x = site.block ∨ ∃ o, s.companion = some o ∧ x = o.block

/-- The state of a scan. At most the blocks it works on are uncounted. -/
structure Scanning (site : Site) (E : Finset BlockId) (s : Scan) : Prop where
  consistent : s.cache.Consistent E
  mapped : s.mem.mapped = []
  uncounted : ∀ x ∈ E, Involved site s x
  owner : (s.cache.block site.block).owner = some site.monitor
  ordinary : (s.cache.block site.block).isCompanion = false
  page : (s.cache.monitor site.monitor).page = site.page
  maskStart : ∀ mask, (s.cache.block site.block).mask = some mask → mask.start = (s.cache.block site.block).start
  maskLast : ∀ i, (s.cache.block site.block).masked i = true → i ≤ (s.cache.block site.block).last
  single : s.companion = none → (s.cache.block site.block).companion = none
  second : ∀ o, s.companion = some o → (s.cache.block site.block).companion = some o.block ∧
    (s.cache.block o.block).owner = some o.monitor ∧ (s.cache.monitor o.monitor).page = o.page ∧
    (s.cache.block o.block).mask = none

theorem Scanning.live (h : Scanning site E s) : (s.cache.block site.block).live = true :=
  live_iff.mpr ⟨_, h.owner⟩

theorem Scanning.second_ne (h : Scanning site E s) {o : Companion} (ho : s.companion = some o) : o.block ≠ site.block := by
  intro heq
  obtain ⟨hcomp, -⟩ := h.second o ho
  have hkind := h.consistent.paired.kind _ _ hcomp
  rw [heq, h.ordinary] at hkind
  exact absurd hkind (by simp)

/-- The second page follows the first. -/
theorem Scanning.second_page (h : Scanning site E s) {o : Companion} (ho : s.companion = some o) :
    o.page = nextPage site.page := by
  obtain ⟨hcomp, howner, hpage, -⟩ := h.second o ho
  rw [← hpage, ← h.page]
  exact h.consistent.adjacent _ _ _ _ hcomp h.ordinary h.owner howner

/-- What a scan keeps on its way: bytes that were taken in, and whether they are read at run time. -/
structure Progress (site : Site) (E : Finset BlockId) (s s' : Scan) : Prop where
  memory : s'.mem.unreleased = s.mem.unreleased
  companion : ∀ o, s.companion = some o → s'.companion = some o
  off : NarrowsOff (Involved site s') s.cache s'.cache
  start : (s'.cache.block site.block).start = (s.cache.block site.block).start
  station : (s'.cache.monitor site.monitor).station = (s.cache.monitor site.monitor).station
  guards : ∀ a, s.cache.Guards site.block a → s'.cache.Guards site.block a
  reads : site.block ∉ E → ∀ a, s.cache.Guards site.block a →
    (s'.cache.Reads site.block a ↔ s.cache.Reads site.block a)

namespace Progress

variable {E' : Finset BlockId}

theorem refl (site : Site) (E : Finset BlockId) (s : Scan) : Progress site E s s :=
  ⟨rfl, fun _ ho => ho, .of_narrows (.refl _) _, rfl, rfl, fun _ ha => ha, fun _ _ _ => Iff.rfl⟩

theorem trans (h : Progress site E s s') (h' : Progress site E' s' s'') (hE : site.block ∉ E → site.block ∉ E') :
    Progress site E s s'' where
  memory := h'.memory.trans h.memory
  companion o ho := h'.companion o (h.companion o ho)
  off := h.off.trans h'.off fun _ hx => hx.imp_right fun ⟨o, ho, hxo⟩ => ⟨o, h'.companion o ho, hxo⟩
  start := h'.start.trans h.start
  station := h'.station.trans h.station
  guards a ha := h'.guards a (h.guards a ha)
  reads hid a ha := (h'.reads (hE hid) a (h.guards a ha)).trans (h.reads hid a ha)

end Progress

/-! ### Taking in a byte -/

theorem coverByte_first (hpage : pageOf linear = site.linearPage) (masked : Nat → Bool) (s : Scan) :
    s.coverByte site masked linear =
      ⟨s.cache.takeByte site.monitor site.block (masked (pageOffset linear)) (pageOffset linear), s.mem, s.companion⟩ := by
  obtain ⟨cache, mem, companion⟩ := s
  simp only [Scan.coverByte, hpage, if_true, takeByte]

theorem coverByte_second {o : Companion} (hpage : pageOf linear ≠ site.linearPage) (ho : s.companion = some o)
    (masked : Nat → Bool) :
    s.coverByte site masked linear =
      ⟨s.cache.takeByte o.monitor o.block false (pageOffset linear), s.mem, s.companion⟩ := by
  obtain ⟨cache, mem, companion⟩ := s
  obtain rfl : companion = some o := ho
  simp only [Scan.coverByte, hpage, if_false]
  rfl

/-- A byte on the first page that the block guards lies in the range of the block itself. -/
theorem Scanning.le_last (h : Scanning site E s) {a : UInt32} (ha : s.cache.Guards site.block a)
    (hpage : site.page = pageOf a) : pageOffset a ≤ (s.cache.block site.block).last := by
  obtain ⟨y, n, hpart, howner, hpg, -, hlast⟩ := ha
  rcases hpart with rfl | hcomp
  · exact hlast
  · have hnext := h.consistent.adjacent _ _ _ _ hcomp h.ordinary h.owner howner
    rw [h.page, hpg, hpage] at hnext
    exact absurd hnext.symm (nextPage_ne _)

theorem Scanning.reads_iff (h : Scanning site E s) (a : UInt32) :
    s.cache.Reads site.block a ↔ site.page = pageOf a ∧ (s.cache.block site.block).masked (pageOffset a) = true := by
  refine ⟨fun ⟨n, hn, hpage, hmask⟩ => ?_, fun ⟨hpage, hmask⟩ => ⟨_, h.owner, h.page.trans hpage, hmask⟩⟩
  obtain rfl : site.monitor = n := Option.some.inj (h.owner.symm.trans hn)
  exact ⟨h.page.symm.trans hpage, hmask⟩

/-- A part of the block takes in a byte. -/
theorem Scanning.of_took (h : Scanning site E s) {x : BlockId} {m : MonitorId} (hx : Involved site s x)
    (hm : (s.cache.block x).owner = some m) {hot : Bool} {j : Nat} (hhot : hot = true → x = site.block) {c' : Cache}
    (ht : TakesNext s.cache E x j) (htook : Took x hot j s.cache c') (hc' : c'.Consistent (E.erase x)) :
    Scanning site (E.erase x) ⟨c', s.mem, s.companion⟩ ∧ Progress site E s ⟨c', s.mem, s.companion⟩ ∧
      (c'.block x).last = j := by
  obtain ⟨hstart, hle, hfresh⟩ := ht.start_le h.consistent.toSound (live_iff.mpr ⟨m, hm⟩)
  have hfield : ∀ {α : Type} (g : Block → α) (_ : ∀ b last mask, g { b with last := last, mask := mask } = g b) (y : BlockId),
      g (c'.block y) = g (s.cache.block y) := fun g hg y => by
    by_cases hy : y = x
    · rw [hy, htook.self]
      exact hg _ _ _
    · rw [htook.other y hy]
  have howner := hfield Block.owner fun _ _ _ => rfl
  have hstart' := hfield Block.start fun _ _ _ => rfl
  have hcompanion := hfield Block.companion fun _ _ _ => rfl
  have hpage : ∀ n, (c'.monitor n).page = (s.cache.monitor n).page := fun n => Monitor.page_eq_of_core (htook.core n)
  have hself : (c'.block x).last = j := by
    rw [htook.self]
    exact Nat.max_eq_right hle
  have hlast : ∀ y, (s.cache.block y).last ≤ (c'.block y).last := fun y => by
    by_cases hy : y = x
    · rw [hy, hself]
      exact hle
    · rw [htook.other y hy]
  have hscan : Scanning site (E.erase x) ⟨c', s.mem, s.companion⟩ := by
    refine ⟨hc', h.mapped, fun y hy => h.uncounted y (Finset.mem_of_mem_erase hy), (howner _).trans h.owner,
      (hfield Block.isCompanion (fun _ _ _ => rfl) _).trans h.ordinary, (hpage _).trans h.page, ?_, fun i hi => ?_,
      fun hnone => (hcompanion _).trans (h.single hnone), fun o ho => ?_⟩
    · rw [hstart']
      by_cases hxs : site.block = x
      · subst hxs
        exact htook.maskStart h.maskStart
      · rw [htook.other _ hxs]
        exact h.maskStart
    · dsimp only at hi ⊢
      by_cases hxs : site.block = x
      · subst hxs
        rw [htook.masked, Bool.or_eq_true, Bool.and_eq_true, beq_iff_eq] at hi
        rw [hself]
        rcases hi with hi | ⟨-, rfl⟩
        · exact (h.maskLast i hi).trans hle
        · exact le_rfl
      · rw [htook.other _ hxs] at hi ⊢
        exact h.maskLast i hi
    · obtain ⟨hcomp, hown, hpg, hmask⟩ := h.second o ho
      refine ⟨(hcompanion _).trans hcomp, (howner _).trans hown, (hpage _).trans hpg, ?_⟩
      dsimp only
      by_cases hox : o.block = x
      · have hcold : hot = false := by
          by_contra hhot'
          exact h.second_ne ho (hox.trans (hhot (by simpa using hhot')))
        rw [hox, htook.mask hcold, ← hox]
        exact hmask
      · rw [htook.other _ hox]
        exact hmask
  refine ⟨hscan, ⟨rfl, fun _ ho => ho, ?_, hstart' _, Monitor.station_eq_of_core (htook.core _),
    fun a ha => ?_, fun hid a ha => ?_⟩, hself⟩
  · refine ⟨congrArg offPages htook.same.shell, htook.same.size, htook.same.tableSize, htook.same.monitorsSize,
      fun y hy _ => ?_, fun _ n _ _ => Monitor.station_eq_of_core (htook.core n)⟩
    rw [htook.other y]
    rintro rfl
    exact hy hx
  · obtain ⟨y, n, hpart, hown, hpg, hs, hl⟩ := ha
    refine ⟨y, n, ?_, (howner y).trans hown, (hpage n).trans hpg, (hstart' y).symm ▸ hs, hl.trans (hlast y)⟩
    rw [Cache.Part, hcompanion]
    exact hpart
  · have hmasked : site.page = pageOf a →
        ((c'.block site.block).masked (pageOffset a) = true ↔ (s.cache.block site.block).masked (pageOffset a) = true) := by
      intro hpg
      by_cases hxs : site.block = x
      · subst hxs
        have hne : pageOffset a ≠ j := by
          have := h.le_last ha hpg
          rcases ht with ⟨hE, -⟩ | ⟨-, hj, -⟩
          · exact absurd hE hid
          · omega
        rw [htook.masked, beq_eq_false_iff_ne.mpr hne, Bool.and_false, Bool.or_false]
      · rw [htook.other _ hxs]
    rw [hscan.reads_iff, h.reads_iff]
    exact and_congr_right hmasked

/-- The part of the block that an address belongs to, with its monitor. -/
def OnPart (site : Site) (s : Scan) (x : BlockId) (m : MonitorId) (a : UInt32) : Prop :=
  x = site.block ∧ m = site.monitor ∧ pageOf a = site.linearPage ∨
    ∃ o, s.companion = some o ∧ x = o.block ∧ m = o.monitor ∧ pageOf a = nextPage site.linearPage

/-- A part of the block took in `n` bytes from an address on. -/
structure TookBytes (site : Site) (E : Finset BlockId) (x : BlockId) (masked : Nat → Bool) (a : UInt32) (n : Nat)
    (s s' : Scan) : Prop where
  scanning : Scanning site (E.erase x) s'
  progress : Progress site E s s'
  mem : s'.mem = s.mem
  companion : s'.companion = s.companion
  last : (s'.cache.block x).last + 1 = pageOffset a + n
  other : ∀ y, y ≠ x → s'.cache.block y = s.cache.block y
  guards : ∀ i < n, s'.cache.Guards site.block (a + i.toUInt32)
  reads : ∀ i < n, s'.cache.Reads site.block (a + i.toUInt32) ↔ x = site.block ∧ masked (pageOffset a + i) = true

theorem Scanning.takeByte (h : Scanning site E s) (hsite : site.page = site.linearPage) {x : BlockId} {m : MonitorId}
    {a : UInt32} (hon : OnPart site s x m a) (ht : TakesNext s.cache E x (pageOffset a)) (masked : Nat → Bool) :
    TookBytes site E x masked a 1 s (s.coverByte site masked a) := by
  have hmatch : Involved site s x ∧ (s.cache.block x).owner = some m ∧ (s.cache.monitor m).page = pageOf a ∧
      s.cache.Part site.block x := by
    rcases hon with ⟨rfl, rfl, hpage⟩ | ⟨o, ho, rfl, rfl, hpage⟩
    · exact ⟨.inl rfl, h.owner, by rw [h.page, hpage, hsite], s.cache.part_self site.block⟩
    · obtain ⟨hcomp, howner, hpg, -⟩ := h.second o ho
      exact ⟨.inr ⟨o, ho, rfl⟩, howner, by rw [hpg, h.second_page ho, hpage, hsite], .inr hcomp⟩
  obtain ⟨hinv, howner, hpg, hpart⟩ := hmatch
  obtain ⟨hot, hhot, hcover⟩ : ∃ hot, (hot = true ↔ x = site.block ∧ masked (pageOffset a) = true) ∧
      s.coverByte site masked a = ⟨s.cache.takeByte m x hot (pageOffset a), s.mem, s.companion⟩ := by
    rcases hon with ⟨rfl, rfl, hpage⟩ | ⟨o, ho, rfl, rfl, hpage⟩
    · exact ⟨masked (pageOffset a), by simp, coverByte_first hpage masked s⟩
    · exact ⟨false, by simp [h.second_ne ho], coverByte_second (hpage ▸ nextPage_ne _) ho masked⟩
  obtain ⟨hstart, -, hfresh⟩ := ht.start_le h.consistent.toSound (live_iff.mpr ⟨m, howner⟩)
  have hmask : ∀ mask, (s.cache.block x).mask = some mask → mask.start ≤ pageOffset a := by
    intro mask hb
    rcases hinv with rfl | ⟨o, ho, rfl⟩
    · rw [h.maskStart mask hb]
      exact hstart
    · rw [(h.second o ho).2.2.2] at hb
      cases hb
  have htook := took_takeByte (lt_size_of_live (live_iff.mpr ⟨m, howner⟩)) hstart hmask m hot
  have hcons := h.consistent.takeByte howner (pageOffset_lt a) ht hmask hot
  obtain ⟨hscan, hprog, hlast⟩ := h.of_took hinv howner (fun hb => (hhot.mp hb).1) ht htook hcons
  rw [hcover]
  have hzero : ∀ i < 1, a + i.toUInt32 = a ∧ pageOffset a + i = pageOffset a := by
    intro i hi
    obtain rfl : i = 0 := by omega
    exact ⟨UInt32.add_zero a, rfl⟩
  refine ⟨hscan, hprog, rfl, rfl, congrArg (· + 1) hlast, htook.other, fun i hi => ?_, fun i hi => ?_⟩
  · rw [(hzero i hi).1]
    refine ⟨x, m, ?_, ?_, (Monitor.page_eq_of_core (htook.core m)).trans hpg, ?_, hlast.ge⟩
    · by_cases hxs : x = site.block
      · exact .inl hxs
      · rw [Cache.Part, htook.other site.block (Ne.symm hxs)]
        exact hpart
    · rw [htook.self]
      exact howner
    · rw [htook.self]
      exact hstart
  · rw [(hzero i hi).1, (hzero i hi).2, hscan.reads_iff]
    rcases hon with ⟨rfl, rfl, hpage⟩ | ⟨o, ho, rfl, rfl, hpage⟩
    · rw [htook.masked, hfresh, Bool.false_or, beq_self_eq_true, Bool.and_true, hhot, hsite, hpage]
      simp
    · rw [hpage, hsite]
      exact iff_of_false (fun hb => nextPage_ne _ hb.1.symm) fun hb => h.second_ne ho hb.1

/-- The byte after those a part has taken in is its next one. -/
theorem Scanning.takesNext (h : Scanning site E s) {x : BlockId} (hx : Involved site s x) (hE : x ∉ E) {j : Nat}
    (hj : j = (s.cache.block x).last + 1) : TakesNext s.cache E x j := by
  refine .inr ⟨hE, hj, ?_⟩
  rcases hx with rfl | ⟨o, ho, rfl⟩
  · rw [Bool.eq_false_iff]
    intro hmask
    have := h.maskLast j hmask
    omega
  · rw [Block.masked, (h.second o ho).2.2.2]

theorem OnPart.involved {x : BlockId} {m : MonitorId} {a : UInt32} (h : OnPart site s x m a) : Involved site s x := by
  rcases h with ⟨hx, -, -⟩ | ⟨o, ho, hx, -, -⟩
  · exact .inl hx
  · exact .inr ⟨o, ho, hx⟩

theorem Scanning.takeBytes (h : Scanning site E s) (hsite : site.page = site.linearPage) {x : BlockId} {m : MonitorId}
    {a : UInt32} (hon : OnPart site s x m a) (ht : TakesNext s.cache E x (pageOffset a))
    (hcounted : x ≠ site.block → site.block ∉ E) (masked : Nat → Bool) (n : Nat) (hfit : pageOffset a + (n + 1) ≤ pageSize) :
    TookBytes site E x masked a (n + 1) s
      ((List.range (n + 1)).foldl (fun s i => s.coverByte site masked (a + i.toUInt32)) s) := by
  induction n with
  | zero =>
      have hzero : a + (0 : Nat).toUInt32 = a := UInt32.add_zero a
      rw [List.range_one, List.foldl_cons, List.foldl_nil, hzero]
      exact h.takeByte hsite hon ht masked
  | succ n ih =>
      specialize ih (by omega)
      rw [List.range_succ, List.foldl_append, List.foldl_cons, List.foldl_nil]
      generalize (List.range (n + 1)).foldl (fun s i => s.coverByte site masked (a + i.toUInt32)) s = s₁ at ih
      obtain ⟨hpage, hoffset⟩ := page_add a (n := n + 1) (by omega)
      have hon₁ : OnPart site s₁ x m (a + (n + 1).toUInt32) := by
        rw [OnPart, ih.companion, hpage]
        exact hon
      have hnot : x ∉ E.erase x := Finset.notMem_erase x E
      have ht₁ : TakesNext s₁.cache (E.erase x) x (pageOffset (a + (n + 1).toUInt32)) :=
        ih.scanning.takesNext hon₁.involved hnot (by rw [hoffset, ih.last])
      have hstep := ih.scanning.takeByte hsite hon₁ ht₁ masked
      have hid : site.block ∉ E.erase x := by
        by_cases hxs : x = site.block
        · exact hxs ▸ hnot
        · exact fun hmem => hcounted hxs (Finset.mem_of_mem_erase hmem)
      generalize s₁.coverByte site masked (a + (n + 1).toUInt32) = s₂ at hstep
      have hzero : a + (n + 1).toUInt32 + (0 : Nat).toUInt32 = a + (n + 1).toUInt32 := UInt32.add_zero _
      refine ⟨Finset.erase_eq_of_notMem hnot ▸ hstep.scanning, ih.progress.trans hstep.progress fun _ => hid,
        hstep.mem.trans ih.mem, hstep.companion.trans ih.companion, ?_, fun y hy => (hstep.other y hy).trans (ih.other y hy),
        fun i hi => ?_, fun i hi => ?_⟩
      · rw [hstep.last, hoffset]
        omega
      · rcases Nat.lt_succ_iff_lt_or_eq.mp hi with hi | rfl
        · exact hstep.progress.guards _ (ih.guards i hi)
        · have := hstep.guards 0 Nat.one_pos
          rwa [hzero] at this
      · rcases Nat.lt_succ_iff_lt_or_eq.mp hi with hi | rfl
        · exact (hstep.progress.reads hid _ (ih.guards i hi)).trans (ih.reads i hi)
        · have := hstep.reads 0 Nat.one_pos
          rwa [hzero, hoffset, Nat.add_zero] at this

/-! ### The second page -/

/-- Bytes and marks of a block that is alone do not depend on other blocks. -/
theorem Scanning.progress_of_claim (h : Scanning site E s) {E' : Finset BlockId} (h' : Scanning site E' s')
    (hnone : s.companion = none) (hmemory : s'.mem.unreleased = s.mem.unreleased) (hoff : NarrowsOff (Involved site s') s.cache s'.cache)
    (hclaim : (s'.cache.block site.block).claim = (s.cache.block site.block).claim)
    (hstation : (s'.cache.monitor site.monitor).station = (s.cache.monitor site.monitor).station) : Progress site E s s' := by
  refine ⟨hmemory, fun o ho => ?_, hoff, Block.start_eq_of_claim hclaim, hstation, fun a ha => ?_, fun _ a _ => ?_⟩
  · rw [hnone] at ho
    cases ho
  · obtain ⟨y, n, hpart, hn, hpage, hstart, hlast⟩ := ha
    obtain rfl : y = site.block := by
      rcases hpart with rfl | hcomp
      · rfl
      · rw [h.single hnone] at hcomp
        cases hcomp
    obtain rfl : site.monitor = n := Option.some.inj (h.owner.symm.trans hn)
    exact ⟨site.block, site.monitor, s'.cache.part_self _, h'.owner, (h'.page.trans h.page.symm).trans hpage,
      (Block.start_eq_of_claim hclaim).symm ▸ hstart, (Block.last_eq_of_claim hclaim).symm ▸ hlast⟩
  · rw [h'.reads_iff, h.reads_iff, Block.masked_eq_of_claim hclaim]

theorem Scanning.counted (h : Scanning site E s) (hnone : s.companion = none) (v : MonitorId)
    (hv : some site.monitor ≠ some v) : Counted s.cache v E := by
  intro x y hx hpart hy
  rcases h.uncounted y hy with rfl | ⟨o, ho, -⟩
  · rcases hpart with rfl | hcomp
    · exact hv (h.owner.symm.trans hx)
    · have := h.consistent.paired.symm _ _ hcomp
      rw [h.single hnone] at this
      cases this
  · rw [hnone] at ho
    cases ho

/-- Looking for the second page leaves the block alone. -/
theorem Scanning.paged (h : Scanning site E s) (hnone : s.companion = none) {page : UInt32} {code32 : Bool} {mem' : Memory}
    {c' : Cache} (hp : Paged (some site.monitor) page code32 s.mem s.cache mem' c') :
    Scanning site E ⟨c', mem', none⟩ ∧ Progress site E s ⟨c', mem', none⟩ ∧
      (c'.block site.block).core = (s.cache.block site.block).core := by
  have hlive := hp.alone site.block site.monitor rfl h.owner (h.single hnone)
  have hcore := hp.narrows.core site.block hlive
  have howner : (c'.block site.block).owner = some site.monitor := (Block.owner_eq_of_core hcore).trans h.owner
  have hpage : (c'.monitor site.monitor).page = site.page :=
    (congrArg Prod.fst (hp.narrows.station site.block site.monitor howner)).trans h.page
  have hscan : Scanning site E ⟨c', mem', none⟩ := by
    refine ⟨⟨hp.sound, hp.exact E (h.counted hnone) h.consistent.toExact⟩, ?_, fun x hx => ?_, howner, (Block.isCompanion_eq_of_core hcore).trans h.ordinary, hpage, ?_,
      fun i => ?_, fun _ => (Block.companion_eq_of_core hcore).trans (h.single hnone), fun o ho => by cases ho⟩
    · have hfield := congrArg Memory.mapped hp.memory
      exact hfield.trans h.mapped
    · rcases h.uncounted x hx with hx | ⟨o, ho, -⟩
      · exact .inl hx
      · rw [hnone] at ho
        cases ho
    · dsimp only
      rw [Block.mask_eq_of_core hcore, Block.start_eq_of_core hcore]
      exact h.maskStart
    · dsimp only
      rw [Block.masked_eq_of_core hcore, Block.last_eq_of_core hcore]
      exact h.maskLast i
  exact ⟨hscan, h.progress_of_claim hscan hnone hp.memory (.of_narrows hp.narrows _) (Block.claim_eq_of_core hcore)
    (hp.narrows.station _ _ howner), hcore⟩

/-- What looking for the companion gives, if there was none: a blank one, or none at all. -/
structure Sought (site : Site) (E : Finset BlockId) (s : Scan) (r : Except CoreError (Option Companion)) (s' : Scan) : Prop where
  progress : Progress site E s s'
  claim : (s'.cache.block site.block).claim = (s.cache.block site.block).claim
  result : s'.companion = none ∧ Scanning site E s' ∧ (∀ o, r ≠ .ok (some o)) ∨
    ∃ o, r = .ok (some o) ∧ s'.companion = some o ∧ o.block ∉ E ∧ Scanning site (insert o.block E) s' ∧
      (s'.cache.block o.block).start = 0 ∧ (s'.cache.block o.block).last = 0

theorem Scanning.join (h : Scanning site E s) (hsite : site.page = site.linearPage) (hnone : s.companion = none)
    {m : MonitorId} (hm : s.cache.monitorOf (nextPage site.linearPage) = some m) {id : BlockId} {d : Cache}
    (ha : Allocated s.cache id d) {r : Companion}
    (hr : r = ⟨m, (((d.addCompanion m id).pair site.block id).monitor m).page, id⟩) :
    Sought site E s (.ok (some r)) ⟨(d.addCompanion m id).pair site.block id, s.mem, some r⟩ := by
  obtain ⟨hinst, hpage⟩ := (h.consistent.watches.byPage _ m).mp hm
  have hne : site.block ≠ id := by
    rintro rfl
    have := h.live
    rw [ha.dead] at this
    cases this
  have hblock := ha.block site.block hne
  have hlive : (d.block site.block).live = true := by rw [hblock]; exact h.live
  have hpair : Pairable d m site.block := by
    refine ⟨by rw [ha.monitor]; exact hinst, hlive, by rw [hblock]; exact h.ordinary, by rw [hblock]; exact h.single hnone⟩
  have hfollows : ∀ k, (d.block site.block).owner = some k → (d.monitor m).page = nextPage (d.monitor k).page := by
    intro k hk
    rw [hblock] at hk
    obtain rfl : site.monitor = k := Option.some.inj (h.owner.symm.trans hk)
    rw [ha.monitor, ha.monitor, hpage, h.page, hsite]
  have hcons : Consistent ((d.addCompanion m id).pair site.block id) (insert id E) :=
    ⟨ha.unlisted.pair hpair, ha.unlisted.exact_pair hpair (ha.exact E h.consistent.toExact) hfollows⟩
  have hb := ha.unlisted.block_pair hlive m
  have hcore : ∀ n, (((d.addCompanion m id).pair site.block id).monitor n).core = (s.cache.monitor n).core := fun n =>
    (ha.unlisted.core_monitor_pair m site.block n).trans (by rw [ha.monitor])
  have hsame := ha.shrinks.same.trans (ShellSame.addCompanion_pair d m site.block id)
  generalize (d.addCompanion m id).pair site.block id = e at *
  have hpage' : ∀ n, (e.monitor n).page = (s.cache.monitor n).page := fun n => Monitor.page_eq_of_core (hcore n)
  have hself : e.block site.block = { s.cache.block site.block with companion := some id } := by
    rw [hb, if_neg hne, if_pos rfl, hblock]
  have hnew : e.block id = { owner := some m, companion := some site.block } := by rw [hb, if_pos rfl]
  have hclaim : (e.block site.block).claim = (s.cache.block site.block).claim := by rw [hself]; rfl
  have hold : ∀ x ∈ E, x = site.block := fun x hx => by
    rcases h.uncounted x hx with hx | ⟨o, ho, -⟩
    · exact hx
    · rw [hnone] at ho
      cases ho
  have hscan : Scanning site (insert id E) ⟨e, s.mem, some r⟩ := by
    refine ⟨hcons, h.mapped, fun x hx => ?_, (Block.owner_eq_of_claim hclaim).trans h.owner,
      (Block.isCompanion_eq_of_claim hclaim).trans h.ordinary, (hpage' _).trans h.page, ?_, fun i => ?_,
      (fun hn => by cases hn), fun o ho => ?_⟩
    · rcases Finset.mem_insert.mp hx with rfl | hx
      · exact .inr ⟨r, rfl, by rw [hr]⟩
      · exact .inl (hold x hx)
    · dsimp only
      rw [Block.mask_eq_of_claim hclaim, Block.start_eq_of_claim hclaim]
      exact h.maskStart
    · dsimp only
      rw [Block.masked_eq_of_claim hclaim, Block.last_eq_of_claim hclaim]
      exact h.maskLast i
    · obtain rfl : r = o := Option.some.inj ho
      rw [hr]
      dsimp only
      rw [hself, hnew]
      exact ⟨rfl, rfl, rfl, rfl⟩
  refine ⟨h.progress_of_claim hscan hnone rfl ⟨congrArg offPages hsame.shell, hsame.size, hsame.tableSize, hsame.monitorsSize,
    fun x hx _ => ?_, fun _ n _ _ => Monitor.station_eq_of_core (hcore n)⟩ hclaim (Monitor.station_eq_of_core (hcore _)),
    hclaim, .inr ⟨r, rfl, rfl, ?_, ?_, ?_, ?_⟩⟩
  · have hxid : x ≠ id := fun hxid => hx (.inr ⟨r, rfl, by rw [hr]; exact hxid⟩)
    rw [hb, if_neg hxid, if_neg fun hxs => hx (.inl hxs), ha.block x hxid]
  · rw [hr]
    exact fun hmem => hne (hold id hmem).symm
  · rw [hr] at hscan ⊢
    exact hscan
  · rw [hr]
    exact congrArg Block.start hnew
  · rw [hr]
    exact congrArg Block.last hnew

theorem Scanning.codePage {cache c' : Cache} {mem mem' : Memory} (h : Scanning site E ⟨cache, mem, none⟩)
    (hsite : site.page = site.linearPage) {r : Except PageFault (Option MonitorId)}
    (hsearch : cache.codePage mem (pageBase (site.linearPage + 1)) site.cpu.codeBig (some site.monitor) = .ok (r, mem', c')) :
    (∃ page, Paged (some site.monitor) page site.cpu.codeBig mem cache mem' c') ∧
      ∀ m, r = .ok (some m) → c'.monitorOf (nextPage site.linearPage) = some m := by
  have hkeep : ∀ paddr, mem.resolve (pageBase (site.linearPage + 1)) false = .ok paddr → ∀ m,
      cache.monitorOf (pageOf paddr) = some m → (cache.monitor m).code32 ≠ site.cpu.codeBig → some site.monitor ≠ some m := by
    intro paddr hpaddr m hm _ heq
    obtain rfl := Memory.resolve_eq_of_ok h.mapped hpaddr
    obtain rfl := Option.some.inj heq
    have hpage := ((h.consistent.watches.byPage _ _).mp hm).2
    rw [h.page, hsite] at hpage
    exact nextPage_ne _ hpage.symm
  rcases codePage_spec h.consistent.toSound hkeep hsearch with ⟨fault, -, rfl, rfl, rfl⟩ | ⟨paddr, hpaddr, hp, hm⟩
  · exact ⟨⟨0, .refl h.consistent.toSound⟩, by simp⟩
  · obtain rfl := Memory.resolve_eq_of_ok h.mapped hpaddr
    exact ⟨⟨_, hp⟩, fun m hm' => (hm m hm').1⟩

theorem Scanning.needCompanion (h : Scanning site E s) (hsite : site.page = site.linearPage) (hnone : s.companion = none)
    {r : Except CoreError (Option Companion)} (hr : s.needCompanion site = .ok (r, s')) : Sought site E s r s' := by
  cases needCompanion_cases hr with
  | known => cases hnone
  | refused hsearch | scarce hsearch =>
      obtain ⟨⟨page, hp⟩, -⟩ := h.codePage hsite hsearch
      obtain ⟨hscan, hprog, hcore⟩ := h.paged rfl hp
      exact ⟨hprog, Block.claim_eq_of_core hcore, .inl ⟨rfl, hscan, by simp⟩⟩
  | created hsearch halloc hpage =>
      obtain ⟨⟨page, hp⟩, hm⟩ := h.codePage hsite hsearch
      obtain ⟨hscan, hprog, hcore⟩ := h.paged rfl hp
      have hjoin := hscan.join hsite rfl (hm _ rfl) (allocate_spec hp.sound halloc) (by rw [hpage])
      exact ⟨hprog.trans hjoin.progress fun hE => hE, hjoin.claim.trans (Block.claim_eq_of_core hcore), hjoin.result⟩

/-- There is no companion, and none can be had. -/
theorem Scanning.alone (h : Scanning site E s) (hsite : site.page = site.linearPage) {r : Except CoreError (Option Companion)}
    (hr : s.needCompanion site = .ok (r, s')) (hno : ∀ o, r ≠ .ok (some o)) : Scanning site E s' ∧ Progress site E s s' := by
  have hnone : s.companion = none := by
    cases needCompanion_cases hr with
    | known => exact absurd rfl (hno _)
    | refused | scarce | created => rfl
  have hs := h.needCompanion hsite hnone hr
  rcases hs.result with ⟨-, hscan, -⟩ | ⟨o, hr, -⟩
  · exact ⟨hscan, hs.progress⟩
  · exact absurd hr (hno o)

end Scan

end Recompiler
