import Recompiler.Proofs.Compile.Phases

/-! Counting while a block is compiled, whatever pages its code is on. The bytes of a trace are taken in in the order of
their addresses, so none is counted twice for the same block and no count exceeds the number of blocks that depend on the
byte. -/

namespace Recompiler

namespace Cache

variable {c c' : Cache} {m : MonitorId} {id x : BlockId} {U U' : Nat → Finset BlockId} {i j k : Nat} {hot : Bool}

/-! ### Bytes of a block that are yet to come -/

/-- Nothing was counted for a block from an offset on, and none of the bytes there is read when it runs. -/
structure Fresh (c : Cache) (U : Nat → Finset BlockId) (id : BlockId) (j : Nat) : Prop where
  start_le : (c.block id).start ≤ j
  uncounted : ∀ i, j ≤ i → id ∈ U i
  masked : ∀ i, j ≤ i → (c.block id).masked i = false

/-- Who is uncounted after a block took in a byte, which counts unless the block reads it when it runs. -/
def charge (U : Nat → Finset BlockId) (id : BlockId) (hot : Bool) (j i : Nat) : Finset BlockId :=
  if i = j ∧ hot = false then (U i).erase id else U i

theorem mem_charge : x ∈ charge U id hot j i ↔ x ∈ U i ∧ ¬(i = j ∧ hot = false ∧ x = id) := by
  unfold charge
  split
  · rename_i h
    simp [h, and_comm]
  · rename_i h
    refine (and_iff_left ?_).symm
    rintro ⟨hi, hhot, -⟩
    exact h ⟨hi, hhot⟩

namespace Fresh

theorem mono (h : Fresh c U id j) (hk : j ≤ k) : Fresh c U id k :=
  ⟨h.start_le.trans hk, fun i hi => h.uncounted i (hk.trans hi), fun i hi => h.masked i (hk.trans hi)⟩

theorem congr (h : Fresh c U id j) (hclaim : (c'.block id).claim = (c.block id).claim) (hU : ∀ i, id ∈ U i → id ∈ U' i) :
    Fresh c' U' id j := by
  refine ⟨?_, fun i hi => hU i (h.uncounted i hi), fun i hi => ?_⟩
  · rw [Block.start_eq_of_claim hclaim]
    exact h.start_le
  · rw [Block.masked_eq_of_claim hclaim]
    exact h.masked i hi

/-- After a byte was taken in the following ones are yet to come. -/
theorem took (h : Fresh c U id j) (ht : Took id hot j c c') : Fresh c' (charge U id hot j) id (j + 1) := by
  refine ⟨?_, fun i hi => mem_charge.mpr ⟨h.uncounted i (by omega), by omega⟩, fun i hi => ?_⟩
  · rw [ht.self]
    exact h.start_le.trans (Nat.le_succ j)
  · rw [ht.masked, h.masked i (by omega), Bool.false_or, beq_eq_false_iff_ne.mpr (by omega), Bool.and_false]

/-- Counted blocks depend on what they depended on before a byte was taken in. -/
theorem dependents_subset (h : Fresh c U id j) (ht : Took id hot j c c') (n : MonitorId) (i : Nat) :
    c.dependents n i \ U i ⊆ c'.dependents n i \ charge U id hot j i := by
  intro y hy
  obtain ⟨hdep, hU⟩ := Finset.mem_sdiff.mp hy
  refine Finset.mem_sdiff.mpr ⟨?_, fun hmem => hU (mem_charge.mp hmem).1⟩
  by_cases hyid : y = id
  · subst hyid
    obtain ⟨howner, hstart, hlast, hmask⟩ := mem_dependents.mp hdep
    have hij : i ≠ j := fun hij => hU (h.uncounted i hij.ge)
    rw [mem_dependents, ht.masked, hmask, beq_eq_false_iff_ne.mpr hij, Bool.and_false, ht.self]
    exact ⟨howner, hstart, hlast.trans (Nat.le_max_left ..), rfl⟩
  · rw [mem_dependents, ht.other y hyid]
    exact mem_dependents.mp hdep

end Fresh

/-- A byte that is yet to come may be counted for the block. -/
theorem CappedAt.takeByte (hcap : CappedAt c U) (hs : Sound c) (hid : (c.block id).owner = some m) (hfresh : Fresh c U id j)
    (ht : Took id hot j c (c.takeByte m id hot j)) : CappedAt (c.takeByte m id hot j) (charge U id hot j) := by
  have hsub := hfresh.dependents_subset ht
  cases hot with
  | true => exact ⟨hcap.size, fun n i => (hcap.le n i).trans (Finset.card_le_card (hsub n i))⟩
  | false =>
      have hm := hs.registry.installed id m hid
      have hsize : ∀ n, ((c.takeByte m id false j).monitor n).cover.size = (c.monitor n).cover.size := fun n =>
        map_monitor_modifyMonitor (g := fun mon : Monitor => mon.cover.size) c m n fun _ => Array.size_modify ..
      refine ⟨fun n => (hsize n).trans (hcap.size n), fun n i => ?_⟩
      have hle := hcap.le n i
      have hcard := Finset.card_le_card (hsub n i)
      by_cases hi : i < pageSize
      · have hcover : ((c.takeByte m id false j).monitor n).cover.getD i 0 =
            if n = m ∧ i = j then (c.monitor n).cover.getD i 0 + 1 else (c.monitor n).cover.getD i 0 :=
          getD_coverByte hm (hcap.size m) hi n
        rw [hcover]
        by_cases hnew : n = m ∧ i = j
        · rw [if_pos hnew]
          obtain ⟨rfl, rfl⟩ := hnew
          -- The block depends on the byte now, and was not counted for it before.
          have hnot : id ∉ c.dependents n i \ U i := fun hmem =>
            (Finset.mem_sdiff.mp hmem).2 (hfresh.uncounted i le_rfl)
          have hmem : id ∈ (c.takeByte n id false i).dependents n i \ charge U id false i i := by
            refine Finset.mem_sdiff.mpr ⟨mem_dependents.mpr ⟨?_, ?_, ?_, ?_⟩, fun hmem => (mem_charge.mp hmem).2 ⟨rfl, rfl, rfl⟩⟩
            · rw [ht.self]
              exact hid
            · rw [ht.self]
              exact hfresh.start_le
            · rw [ht.self]
              exact Nat.le_max_right ..
            · rw [ht.masked, hfresh.masked i le_rfl]
              rfl
          have hmore := Finset.card_le_card (Finset.insert_subset hmem (hsub n i))
          rw [Finset.card_insert_of_notMem hnot] at hmore
          have hone : (1 : UInt16).toNat = 1 := rfl
          have hadd : ((c.monitor n).cover.getD i 0 + 1).toNat ≤ ((c.monitor n).cover.getD i 0).toNat + 1 := by
            rw [UInt16.toNat_add, hone]
            exact Nat.mod_le _ _
          omega
        · rw [if_neg hnew]
          omega
      · have hnone : ((c.takeByte m id false j).monitor n).cover[i]? = none :=
          Array.getElem?_eq_none (by rw [hsize, hcap.size]; omega)
        rw [Array.getD_eq_getD_getElem?, hnone]
        exact Nat.zero_le _

end Cache

/-! ### Taking a trace -/

namespace Scan

open Cache

variable {site : Site} {U U' U'' : Nat → Finset BlockId} {s s' s'' : Scan} {linear : UInt32}

/-- The state of a scan that goes on at an address: nothing was counted from there on. -/
structure Filling (site : Site) (U : Nat → Finset BlockId) (linear : UInt32) (s : Scan) : Prop extends Steady site s where
  capped : s.cache.CappedAt U
  maskStart : ∀ mask, (s.cache.block site.block).mask = some mask → mask.start = (s.cache.block site.block).start
  first : pageOf linear = site.linearPage → Fresh s.cache U site.block (pageOffset linear)
  before : pageOf linear = site.linearPage → ∀ o, s.companion = some o → Fresh s.cache U o.block 0
  after : pageOf linear = nextPage site.linearPage → ∀ o, s.companion = some o → Fresh s.cache U o.block (pageOffset linear)

theorem Steady.second_ne (h : Steady site s) {o : Companion} (ho : s.companion = some o) : o.block ≠ site.block := by
  intro heq
  have hkind := h.sound.paired.kind _ _ (h.second o ho)
  rw [heq, h.ordinary] at hkind
  exact absurd hkind (by simp)

theorem Steady.second_live (h : Steady site s) {o : Companion} (ho : s.companion = some o) :
    (s.cache.block o.block).live = true :=
  live_iff.mpr ⟨_, h.secondOwner o ho⟩

/-- The address after one that is on the first or the second page of a block. -/
theorem page_succ (a : UInt32) :
    pageOf (a + 1) = pageOf a ∧ pageOffset (a + 1) = pageOffset a + 1 ∨
      pageOf (a + 1) = nextPage (pageOf a) ∧ pageOffset (a + 1) = 0 := by
  have hlt := pageOffset_lt a
  have hone : (1 : Nat).toUInt32 = 1 := rfl
  rcases Nat.lt_or_ge (pageOffset a + 1) pageSize with hin | hout
  · have hadd := page_add a hin
    rw [hone] at hadd
    exact .inl hadd
  · obtain ⟨hpage, hoffset⟩ := page_add_next a hout (by omega)
    rw [hone] at hpage hoffset
    exact .inr ⟨hpage, by omega⟩

/-! #### What is counted for a block -/

/-- The byte at an address is counted for part `x` of the block, at offset `i` of its page. -/
def CountsByte (site : Site) (s : Scan) (masked : Nat → Bool) (a : UInt32) (x : BlockId) (i : Nat) : Prop :=
  i = pageOffset a ∧ (∃ m, OnPart site s x m a) ∧ (x = site.block → masked i = false)

/-- A byte of the instruction is counted for part `x` of the block, at offset `i` of its page. -/
def Counts (site : Site) (s : Scan) (f : Fetched) (x : BlockId) (i : Nat) : Prop :=
  ∃ j < f.inst.len, CountsByte site s (hot f) (site.cpu.base .cs + f.inst.ip + j.toUInt32) x i

theorem CountsByte.mono {masked : Nat → Bool} {a : UInt32} {x : BlockId} {i : Nat} (h : CountsByte site s masked a x i)
    (hs : ∀ o, s.companion = some o → s'.companion = some o) : CountsByte site s' masked a x i := by
  obtain ⟨hi, ⟨m, hon⟩, hmask⟩ := h
  refine ⟨hi, ⟨m, hon.imp_right ?_⟩, hmask⟩
  rintro ⟨o, ho, hrest⟩
  exact ⟨o, hs o ho, hrest⟩

theorem Counts.mono {f : Fetched} {x : BlockId} {i : Nat} (h : Counts site s f x i)
    (hs : ∀ o, s.companion = some o → s'.companion = some o) : Counts site s' f x i := by
  obtain ⟨j, hj, hcount⟩ := h
  exact ⟨j, hj, hcount.mono hs⟩

theorem Counts.involved {f : Fetched} {x : BlockId} {i : Nat} (h : Counts site s f x i) : Involved site s x := by
  obtain ⟨j, -, hi, ⟨m, hon⟩, hmask⟩ := h
  exact hon.involved

/-- What is counted after a part of a scan was counted before, for a block that the scan worked on before if it does now,
or is `new`. -/
def Accrues (site : Site) (U : Nat → Finset BlockId) (s : Scan) (U' : Nat → Finset BlockId) (s' : Scan)
    (new : BlockId → Nat → Prop) : Prop :=
  ∀ x i, x ∉ U' i → x ∉ U i ∧ (Involved site s' x → Involved site s x) ∨ new x i

theorem Involved.of_companion {x : BlockId} (h : s'.companion = s.companion) (hx : Involved site s' x) : Involved site s x := by
  rwa [Involved, h] at hx

/-- Nothing is counted, and the scan does not begin to work on a block. -/
theorem Accrues.of_companion {new : BlockId → Nat → Prop} (h : s'.companion = s.companion) : Accrues site U s U s' new :=
  fun _ _ hx => .inl ⟨hx, .of_companion h⟩

theorem Accrues.trans {new new' new'' : BlockId → Nat → Prop} (h : Accrues site U s U' s' new)
    (h' : Accrues site U' s' U'' s'' new') (hnew : ∀ x i, new x i → new'' x i) (hnew' : ∀ x i, new' x i → new'' x i) :
    Accrues site U s U'' s'' new'' := by
  intro x i hx
  rcases h' x i hx with ⟨hmid, hinv'⟩ | hx'
  · rcases h x i hmid with ⟨hold, hinv⟩ | hx'
    · exact .inl ⟨hold, fun hlast => hinv (hinv' hlast)⟩
    · exact .inr (hnew x i hx')
  · exact .inr (hnew' x i hx')

namespace Filling

/-! #### Bytes -/

/-- A byte on the first page is taken in. -/
theorem coverByte_first (h : Filling site U linear s) (hpage : pageOf linear = site.linearPage) (masked : Nat → Bool) :
    Filling site (charge U site.block (masked (pageOffset linear)) (pageOffset linear)) (linear + 1)
      (s.coverByte site masked linear) := by
  have hsteady := (h.toSteady.coverByte masked linear).1
  have hstart := (h.first hpage).start_le
  have htook := took_takeByte (lt_size_of_live h.live) hstart (fun mask hb => (h.maskStart mask hb).trans_le hstart)
    site.monitor (masked (pageOffset linear))
  have hcap := h.capped.takeByte h.sound h.owner (h.first hpage) htook
  rw [Scan.coverByte_first hpage] at hsteady ⊢
  have hother : ∀ o, s.companion = some o → Fresh s.cache U o.block 0 →
      Fresh (s.cache.takeByte site.monitor site.block (masked (pageOffset linear)) (pageOffset linear))
        (charge U site.block (masked (pageOffset linear)) (pageOffset linear)) o.block 0 := by
    intro o ho hfresh
    have hne := h.second_ne ho
    exact hfresh.congr (by rw [htook.other _ hne]) fun i hi => mem_charge.mpr ⟨hi, fun heq => hne heq.2.2⟩
  refine ⟨hsteady, hcap, ?_, fun hnext => ?_, fun _ o ho => hother o ho (h.before hpage o ho), fun hnext o ho => ?_⟩
  · have hkeep : ((s.cache.takeByte site.monitor site.block (masked (pageOffset linear)) (pageOffset linear)).block site.block).start =
        (s.cache.block site.block).start := by rw [htook.self]
    rw [hkeep]
    exact htook.maskStart h.maskStart
  · rcases page_succ linear with ⟨-, hoffset⟩ | ⟨hcross, -⟩
    · rw [hoffset]
      exact (h.first hpage).took htook
    · rw [hcross, hpage] at hnext
      exact absurd hnext (nextPage_ne _)
  · exact (hother o ho (h.before hpage o ho)).mono (Nat.zero_le _)

/-- A byte on the second page is taken in, if there is a companion for it. -/
theorem coverByte_second (h : Filling site U linear s) (hpage : pageOf linear = nextPage site.linearPage) (masked : Nat → Bool) :
    ∃ U', Filling site U' (linear + 1) (s.coverByte site masked linear) ∧
      ∀ x i, x ∉ U' i → x ∉ U i ∨ CountsByte site s masked linear x i := by
  have hne : pageOf linear ≠ site.linearPage := hpage ▸ nextPage_ne _
  -- The following address is not on the first page again.
  have hfar : pageOf (linear + 1) ≠ site.linearPage := by
    rcases page_succ linear with ⟨hsame, -⟩ | ⟨hcross, -⟩
    · rwa [hsame]
    · rw [hcross, hpage]
      exact (nextPage_nextPage_ne _).1
  have hsteady := (h.toSteady.coverByte masked linear).1
  cases ho : s.companion with
  | none =>
      have hstay : s.coverByte site masked linear = s := by
        obtain ⟨cache, mem, companion⟩ := s
        obtain rfl : companion = none := ho
        simp only [Scan.coverByte, hne, if_false]
      rw [hstay]
      refine ⟨U, ⟨h.toSteady, h.capped, h.maskStart, fun hnext => absurd hnext hfar, fun hnext => absurd hnext hfar,
        fun _ o ho' => ?_⟩, fun _ _ hx => .inl hx⟩
      rw [ho] at ho'
      cases ho'
  | some o =>
      have hfresh := h.after hpage o ho
      have hlive := h.second_live ho
      have hapart := h.second_ne ho
      have htook := took_cold (lt_size_of_live hlive) o.monitor (pageOffset linear)
      have hcap := h.capped.takeByte h.sound (h.secondOwner o ho) hfresh htook
      have hblock := htook.other site.block hapart.symm
      rw [Scan.coverByte_second hne ho] at hsteady ⊢
      refine ⟨charge U o.block false (pageOffset linear), ⟨hsteady, hcap, ?_, fun hnext => absurd hnext hfar,
        fun hnext => absurd hnext hfar, fun hnext o' ho' => ?_⟩, fun x i hx => ?_⟩
      · dsimp only
        rw [hblock]
        exact h.maskStart
      · obtain rfl : o = o' := Option.some.inj (ho.symm.trans ho')
        rcases page_succ linear with ⟨-, hoffset⟩ | ⟨hcross, -⟩
        · rw [hoffset]
          exact hfresh.took htook
        · rw [hcross, hpage] at hnext
          exact absurd hnext (nextPage_ne _)
      · refine or_iff_not_imp_left.mpr fun hU => ?_
        by_contra hnot
        refine hx (mem_charge.mpr ⟨not_not.mp hU, ?_⟩)
        rintro ⟨rfl, -, rfl⟩
        exact hnot ⟨rfl, ⟨o.monitor, .inr ⟨o, ho, rfl, rfl, hpage⟩⟩, fun heq => absurd heq hapart⟩

theorem coverByte (h : Filling site U linear s)
    (hpage : pageOf linear = site.linearPage ∨ pageOf linear = nextPage site.linearPage) (masked : Nat → Bool) :
    ∃ U', Filling site U' (linear + 1) (s.coverByte site masked linear) ∧
      ∀ x i, x ∉ U' i → x ∉ U i ∨ CountsByte site s masked linear x i := by
  rcases hpage with hpage | hpage
  · refine ⟨_, h.coverByte_first hpage masked, fun x i hx => or_iff_not_imp_left.mpr fun hU => ?_⟩
    by_contra hnot
    refine hx (mem_charge.mpr ⟨not_not.mp hU, ?_⟩)
    rintro ⟨rfl, hcold, rfl⟩
    exact hnot ⟨rfl, ⟨site.monitor, .inl ⟨rfl, rfl, hpage⟩⟩, fun _ => hcold⟩
  · exact h.coverByte_second hpage masked

/-- Bytes at an address are on the two pages of the block. -/
def Within (site : Site) (linear : UInt32) (len : Nat) : Prop :=
  ∀ i < len, pageOf (linear + i.toUInt32) = site.linearPage ∨ pageOf (linear + i.toUInt32) = nextPage site.linearPage

theorem Within.page {len : Nat} (h : Within site linear len) (hpos : 0 < len) :
    pageOf linear = site.linearPage ∨ pageOf linear = nextPage site.linearPage := by
  have hzero : linear + (0 : Nat).toUInt32 = linear := UInt32.add_zero linear
  have hfirst := h 0 hpos
  rwa [hzero] at hfirst

theorem coverBytes (h : Filling site U linear s) (masked : Nat → Bool) {n : Nat} (hwithin : Within site linear n) :
    ∃ U', Filling site U' (linear + n.toUInt32)
        ((List.range n).foldl (fun s i => s.coverByte site masked (linear + i.toUInt32)) s) ∧
      ∀ x i, x ∉ U' i → x ∉ U i ∨ ∃ j < n, CountsByte site s masked (linear + j.toUInt32) x i := by
  induction n with
  | zero =>
      have hzero : linear + (0 : Nat).toUInt32 = linear := UInt32.add_zero linear
      rw [hzero]
      exact ⟨U, h, fun _ _ hx => .inl hx⟩
  | succ n ih =>
      obtain ⟨U', hfill, hold⟩ := ih fun i hi => hwithin i (Nat.lt_succ_of_lt hi)
      have hsame := (Taking.coverBytes site masked linear (List.range n) s).companion
      rw [List.range_succ, List.foldl_append, List.foldl_cons, List.foldl_nil, add_toUInt32]
      obtain ⟨U'', hfill', hnew⟩ := hfill.coverByte (hwithin n (Nat.lt_succ_self n)) masked
      refine ⟨U'', hfill', fun x i hx => ?_⟩
      rcases hnew x i hx with hx' | hcount
      · rcases hold x i hx' with hU | ⟨j, hj, hcount⟩
        · exact .inl hU
        · exact .inr ⟨j, Nat.lt_succ_of_lt hj, hcount⟩
      · exact .inr ⟨n, Nat.lt_succ_self n, hcount.mono fun o ho => hsame ▸ ho⟩

/-! #### The second page -/

/-- Looking for the second page leaves the block alone. -/
theorem paged (h : Filling site U linear s) (hnone : s.companion = none) {page : UInt32} {code32 : Bool} {mem' : Memory}
    {c' : Cache} (hp : Paged (some site.monitor) page code32 s.mem s.cache mem' c') :
    Filling site U linear ⟨c', mem', none⟩ := by
  have hlive := hp.alone site.block site.monitor rfl h.owner (h.single hnone)
  have hcore := hp.narrows.core site.block hlive
  refine ⟨(h.toSteady.paged hnone hp).1, hp.capped U h.capped, ?_,
    fun hpage => (h.first hpage).congr (Block.claim_eq_of_core hcore) fun _ hU => hU, by simp, by simp⟩
  dsimp only
  rw [Block.mask_eq_of_core hcore, Block.start_eq_of_core hcore]
  exact h.maskStart

/-- Nothing was counted yet for a new companion. -/
theorem join (h : Filling site U linear s) (hnone : s.companion = none) {o : Companion}
    (hm : (s.cache.monitor o.monitor).installed = true) (hcode : (s.cache.monitor o.monitor).code32 = site.cpu.codeBig)
    {d : Cache} (ha : Allocated s.cache o.block d) :
    Filling site (fun i => insert o.block (U i)) linear
      ⟨(d.addCompanion o.monitor o.block).pair site.block o.block, s.mem, some o⟩ := by
  have hsteady := (h.toSteady.join hnone hm hcode ha).1
  have hne := (hsteady.second_ne rfl).symm
  have hblock := ha.block site.block hne
  have hlive : (d.block site.block).live = true := by rw [hblock]; exact h.live
  have hcap : CappedAt ((d.addCompanion o.monitor o.block).pair site.block o.block) fun i => insert o.block (U i) := by
    rw [ha.unlisted.addCompanion_eq]
    exact ((ha.capped U h.capped).enlist (ha.unlisted.enlistable (by rw [ha.monitor]; exact hm))).congr
      (claim_pair _ site.block o.block) fun _ => rfl
  have hb := ha.unlisted.block_pair hlive o.monitor
  generalize (d.addCompanion o.monitor o.block).pair site.block o.block = e at *
  have hself : e.block site.block = { s.cache.block site.block with companion := some o.block } := by
    rw [hb, if_neg hne, if_pos rfl, hblock]
  have hnew : e.block o.block = { owner := some o.monitor, companion := some site.block } := by rw [hb, if_pos rfl]
  have hfresh : Fresh e (fun i => insert o.block (U i)) o.block 0 := by
    refine ⟨by rw [hnew], fun _ _ => Finset.mem_insert_self .., fun i _ => ?_⟩
    rw [hnew]
    rfl
  refine ⟨hsteady, hcap, ?_, fun hpage => (h.first hpage).congr (by rw [hself]; rfl) fun _ => Finset.mem_insert_of_mem,
    fun _ o' ho' => ?_, fun _ o' ho' => ?_⟩
  · dsimp only
    rw [hself]
    exact h.maskStart
  · obtain rfl : o = o' := Option.some.inj ho'
    exact hfresh
  · obtain rfl : o = o' := Option.some.inj ho'
    exact hfresh.mono (Nat.zero_le _)

theorem needCompanion (h : Filling site U linear s) {r : Except CoreError (Option Companion)}
    (hr : s.needCompanion site = .ok (r, s')) :
    ∃ U', Filling site U' linear s' ∧ Accrues site U s U' s' fun _ _ => False := by
  cases needCompanion_cases hr with
  | known => exact ⟨U, h, .of_companion rfl⟩
  | refused hsearch | scarce hsearch =>
      obtain ⟨⟨page, hp⟩, -⟩ := h.codePage hsearch
      exact ⟨U, h.paged rfl hp, .of_companion rfl⟩
  | created hsearch halloc =>
      obtain ⟨⟨page, hp⟩, hm⟩ := h.codePage hsearch
      refine ⟨_, (h.paged rfl hp).join rfl (hm _ rfl).1 (hm _ rfl).2 (allocate_spec hp.sound halloc), fun x i hx => ?_⟩
      rw [Finset.mem_insert, not_or] at hx
      refine .inl ⟨hx.2, ?_⟩
      rintro (rfl | ⟨o, ho, rfl⟩)
      · exact .inl rfl
      · obtain rfl := Option.some.inj ho
        exact absurd rfl hx.1

/-! #### Instructions -/

theorem length_pageBytes (mem : Memory) (page : UInt32) (offset n : Nat) :
    (pageBytes mem page offset n).length = min n (pageSize - offset) := by
  simp [pageBytes]

/-- What was fetched from one page lies on that page. -/
theorem page_of_fits {len : Nat} (hfit : len ≤ pageSize - pageOffset linear) {i : Nat} (hi : i < len) :
    pageOf (linear + i.toUInt32) = pageOf linear :=
  (page_add linear (by omega)).1

/-- An instruction is short, so from the first page it gets to the second one at most. -/
theorem within_of_first {len : Nat} (hpage : pageOf linear = site.linearPage) (hmax : len ≤ Encoding.maxLength) :
    Within site linear len := by
  intro i hi
  have hoffset := pageOffset_lt linear
  rcases Nat.lt_or_ge (pageOffset linear + i) pageSize with hin | hout
  · exact .inl ((page_add linear hin).1.trans hpage)
  · refine .inr ((page_add_next linear hout ?_).1.trans (congrArg nextPage hpage))
    simp only [Encoding.maxLength, pageSize] at *
    omega

theorem within_of_second {len : Nat} (hpage : pageOf linear = site.linearPage + 1) (hfit : len ≤ pageSize - pageOffset linear) :
    Within site linear len := by
  intro i hi
  refine .inr ((page_of_fits hfit hi).trans ?_)
  have hlt := toNat_pageOf_lt linear
  have hone : (1 : UInt32).toNat = 1 := rfl
  rw [hpage, ← UInt32.toNat_inj, toNat_nextPage]
  rw [hpage, UInt32.toNat_add, hone] at hlt
  rw [UInt32.toNat_add, hone]
  have hsite := site.linearPage.toNat_lt
  omega

theorem decodeAt (h : Filling site U linear s) {eip : UInt32} {r : Except CoreError (Option Instruction)}
    (hr : s.decodeAt site eip linear = .ok (r, s')) :
    (∃ U', Filling site U' linear s' ∧ Accrues site U s U' s' fun _ _ => False) ∧ ∀ inst, r = .ok (some inst) →
      inst.ip = eip ∧ 0 < inst.len ∧ inst.len ≤ Encoding.maxLength ∧ Within site linear inst.len := by
  cases decodeAt_cases hr with
  | first hpage hdecode =>
      obtain ⟨hip, hpos, -, hmax, -⟩ := decode_ok hdecode
      refine ⟨⟨U, h, .of_companion rfl⟩, fun inst heq => ?_⟩
      cases heq
      exact ⟨hip, hpos, hmax, within_of_first hpage hmax⟩
  | scarce hneed | alone hneed => exact ⟨h.needCompanion hneed, by simp⟩
  | across hpage _ hneed =>
      refine ⟨h.needCompanion hneed, fun inst heq => ?_⟩
      obtain ⟨hip, hpos, -, hmax, -⟩ := decode_ok (eq_ok_of_toOption (Except.ok.inj heq))
      exact ⟨hip, hpos, hmax, within_of_first hpage hmax⟩
  | second hpage hneed =>
      refine ⟨h.needCompanion hneed, fun inst heq => ?_⟩
      obtain ⟨hip, hpos, hlen, hmax, -⟩ := decode_ok (eq_ok_of_toOption (Except.ok.inj heq))
      rw [length_pageBytes] at hlen
      exact ⟨hip, hpos, hmax, within_of_second hpage (hlen.trans (Nat.min_le_right ..))⟩
  | elsewhere => exact ⟨⟨U, h, .of_companion rfl⟩, by simp⟩

/-- Where neither page of the block is, nothing is asked for. -/
theorem elsewhere (h : Filling site U linear s) {a : UInt32} (hfirst : pageOf a ≠ site.linearPage)
    (hsecond : pageOf a ≠ nextPage site.linearPage) : Filling site U a s :=
  ⟨h.toSteady, h.capped, h.maskStart, fun hpage => absurd hpage hfirst, fun hpage => absurd hpage hfirst,
    fun hpage => absurd hpage hsecond⟩

theorem fetch {eip : UInt32} (h : Filling site U (site.cpu.base .cs + eip) s) {r : Except CoreError (Option Fetched)}
    (hr : s.fetch site eip = .ok (r, s')) :
    ∃ U', (∃ a, Filling site U' a s') ∧
      (∀ f, r = .ok (some f) → Filling site U' (site.cpu.base .cs + f.inst.nextIp site.cpu.codeBig) s') ∧
      Accrues site U s U' s' fun x i => ∃ f, r = .ok (some f) ∧ Counts site s' f x i := by
  cases fetch_cases hr with
  | scarce hdecode | missing hdecode =>
      obtain ⟨⟨U', hfill, hnew⟩, -⟩ := h.decodeAt hdecode
      exact ⟨U', ⟨_, hfill⟩, by simp, fun x i hx => (hnew x i hx).imp_right False.elim⟩
  | @found inst s₁ hdecode =>
      obtain ⟨⟨U', hfill, hnew⟩, hinst⟩ := h.decodeAt hdecode
      obtain ⟨hip, hpos, hmax, hwithin⟩ := hinst inst rfl
      have hnear := page_near (hwithin.page hpos) hmax
      obtain ⟨U'', hcovered, hbytes⟩ :=
        hfill.coverBytes (hot ⟨inst, hotImmediate site s₁.cache inst (site.cpu.base .cs + eip)⟩) hwithin
      have hsame := (Taking.coverBytes site (hot ⟨inst, hotImmediate site s₁.cache inst (site.cpu.base .cs + eip)⟩)
        (site.cpu.base .cs + eip) (List.range inst.len) s₁).companion
      rw [← cover_eq site ⟨inst, hotImmediate site s₁.cache inst (site.cpu.base .cs + eip)⟩] at hcovered hsame
      refine ⟨U'', ⟨_, hcovered⟩, fun f heq => ?_, hnew.trans (fun x i hx => ?_) (fun _ _ => False.elim) fun _ _ hx => hx⟩
      · cases heq
        dsimp only
        rw [UInt32.add_assoc] at hcovered hnear
        unfold Instruction.nextIp
        rw [hip]
        split
        · exact hcovered
        · by_cases hwrap : (eip + inst.len.toUInt32) &&& 0xFFFF = eip + inst.len.toUInt32
          · rw [hwrap]
            exact hcovered
          · obtain ⟨hne, -, hne'⟩ := wrapped_ne hwrap hnear
            exact hcovered.elsewhere hne hne'
      · rcases hbytes x i hx with hU | ⟨j, hj, hcount⟩
        · exact .inl ⟨hU, .of_companion hsame⟩
        · refine .inr ⟨_, rfl, j, hj, ?_⟩
          dsimp only
          rw [hip]
          exact hcount.mono fun o ho => hsame.trans ho

/-- A trace that ends with this instruction, or without it. -/
theorem fetch_last {eip : UInt32} (h : Filling site U (site.cpu.base .cs + eip) s) {r : Except CoreError (Option Fetched)}
    (hr : s.fetch site eip = .ok (r, s')) {t : Except CoreError Trace}
    (ht : ∀ f, r = .ok (some f) → ∀ trace, t = .ok trace → f ∈ trace.insts) :
    ∃ U', (∃ a, Filling site U' a s') ∧
      Accrues site U s U' s' fun x i => Involved site s' x ∧ ∀ trace, t = .ok trace → ∃ f ∈ trace.insts, Counts site s' f x i := by
  obtain ⟨U', hfill, -, hnew⟩ := h.fetch hr
  refine ⟨U', hfill, fun x i hx => (hnew x i hx).imp_right ?_⟩
  rintro ⟨f, hf, hcount⟩
  exact ⟨hcount.involved, fun trace htrace => ⟨f, ht f hf trace htrace, hcount⟩⟩

theorem take {n : Nat} {eip : UInt32} (h : Filling site U (site.cpu.base .cs + eip) s) {r : Except CoreError Trace}
    (hr : Scan.take site n eip s = .ok (r, s')) :
    ∃ U', (∃ a, Filling site U' a s') ∧
      Accrues site U s U' s' fun x i => Involved site s' x ∧ ∀ t, r = .ok t → ∃ f ∈ t.insts, Counts site s' f x i := by
  have htakes := take_cases hr
  clear hr
  induction htakes generalizing U with
  | scarce hfetch => exact h.fetch_last hfetch (by simp)
  | missing hfetch => exact h.fetch_last hfetch (by simp)
  | terminal hfetch | full hfetch => exact h.fetch_last hfetch (by rintro f hf trace htrace; cases hf; cases htrace; simp)
  | @more n eip s s₁ s' f r hfetch _ hrest ih =>
      obtain ⟨U', -, hnext, hnew⟩ := h.fetch hfetch
      obtain ⟨U'', hfill, hnew'⟩ := ih (hnext f rfl)
      have hkeep := ((hnext f rfl).takes hrest).2.companion
      refine ⟨U'', hfill, hnew.trans hnew' ?_ ?_⟩
      · rintro x i ⟨f', heq, hcount⟩
        cases heq
        have hcount := hcount.mono hkeep
        refine ⟨hcount.involved, fun t' ht' => ?_⟩
        obtain ⟨t, -, rfl⟩ := Trace.eq_cons_of_map ht'
        exact ⟨f, List.mem_cons_self, hcount⟩
      · rintro x i ⟨hinv, hcounts⟩
        refine ⟨hinv, fun t' ht' => ?_⟩
        obtain ⟨t, ht, rfl⟩ := Trace.eq_cons_of_map ht'
        obtain ⟨f', hf', hcount⟩ := hcounts t ht
        exact ⟨f', List.mem_cons_of_mem f hf', hcount⟩

end Filling

end Scan

/-! ### The compilation as a whole -/

namespace Compilation

open Cache Scan

variable {k : Compilation} {c' : Cache} {U : Nat → Finset BlockId}

theorem Pending.filling (h : k.Pending) (hc : k.cache.Sound) (hcap : k.cache.CappedAt U) :
    Filling k.site (fun i => insert k.block (U i)) (k.site.cpu.base .cs + k.cpu.eip) k.scan := by
  have hsite := h.sited hc
  have hlinear : k.site.cpu.base .cs + k.cpu.eip = k.cpu.ipLinear := by rw [hsite.cpu_eq]; rfl
  have hnone : ∀ o, k.scan.companion ≠ some o := fun o ho => by cases ho
  have hunmasked : (k.scan.cache.block k.site.block).mask = none := hsite.mask
  rw [hlinear]
  refine ⟨h.steady hc, hsite.capped U hcap, fun mask hmask => ?_,
    fun _ => ⟨hsite.start.le, fun _ _ => Finset.mem_insert_self .., fun i _ => ?_⟩,
    fun _ o ho => absurd ho (hnone o), fun _ o ho => absurd ho (hnone o)⟩
  · rw [hunmasked] at hmask
    cases hmask
  · rw [Block.masked, hunmasked]

/-- Counts stay below the number of blocks through a compilation. -/
theorem Pending.capped (h : k.Pending) (hc : k.cache.Sound) (hcap : k.cache.Capped ∅) {r : Except CoreError BlockId}
    {mem' : Memory} {code' : HostCode} (hr : k.result = .ok (r, mem', c', code')) : c'.Capped ∅ := by
  obtain ⟨t, s, hout, -, -, -, hend⟩ := h.settles hc hr
  obtain ⟨U', ⟨a, hfill⟩, -⟩ := (h.filling hc hcap.cappedAt).take hout
  have hscan : s.cache.CappedAt fun _ => ∅ := hfill.capped.mono fun _ => Finset.empty_subset _
  rcases hend with ⟨-, hgiven⟩ | ⟨-, written, hclosed, -⟩
  · exact (hgiven.capped _ hscan).capped
  · exact (hclosed.capped _ hscan).capped

end Compilation

end Recompiler
