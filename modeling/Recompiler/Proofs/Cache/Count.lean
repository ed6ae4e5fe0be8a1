import Recompiler.Proofs.Cache.Enlist

/-! Counting the bytes of a block. A block that is compiled takes in its bytes one after the other: each is counted
in the write map of its page, or marked as read at run time. No count overflows, since a page has at most one block
and one companion for each of its bytes. -/

namespace Recompiler

theorem getD_append_replicate_false (bits : Array Bool) (n k : Nat) :
    (bits ++ Array.replicate n false).getD k false = bits.getD k false := by
  rw [Array.getD_eq_getD_getElem?, Array.getD_eq_getD_getElem?, Array.getElem?_append]
  split
  · rfl
  · rename_i hk
    rw [Array.getElem?_eq_none (Nat.le_of_not_lt hk), Array.getElem?_replicate]
    split <;> rfl

theorem WriteMask.contains_mark (mask : WriteMask) {j : Nat} (growth i : Nat) (hj : mask.start ≤ j) :
    (mask.mark j growth).contains i = (mask.contains i || i == j) := by
  unfold contains mark
  dsimp only
  by_cases hi : mask.start ≤ i
  · generalize hlen : (if mask.bits.size ≤ j - mask.start then max (mask.bits.size * growth) (j - mask.start + 1)
      else mask.bits.size) = len
    have hroom : j - mask.start < (mask.bits ++ Array.replicate (len - mask.bits.size) false).size := by
      rw [Array.size_append, Array.size_replicate]
      split at hlen <;> omega
    by_cases hij : i = j
    · subst hij
      simp only [hi, decide_true, Bool.true_and, BEq.rfl, Bool.or_true]
      rw [Array.getD_eq_getD_getElem?, Array.getElem?_setIfInBounds_self_of_lt hroom, Option.getD_some]
    · have hne : j - mask.start ≠ i - mask.start := by omega
      have hbeq : (i == j) = false := beq_eq_false_iff_ne.mpr hij
      rw [Array.getD_eq_getD_getElem?, Array.getElem?_setIfInBounds_ne hne, ← Array.getD_eq_getD_getElem?,
        getD_append_replicate_false, hbeq, Bool.or_false]
  · have hne : i ≠ j := fun h => hi (h ▸ hj)
    simp [hi, hne]

/-- Marking a byte of a block that has no mask yet begins one at the start of the block. -/
theorem Block.contains_mark (b : Block) (len growth : Nat) {j : Nat} (i : Nat) (hstart : b.start ≤ j)
    (hmask : ∀ mask, b.mask = some mask → mask.start ≤ j) :
    ((b.mask.getD { start := b.start, bits := Array.replicate len false }).mark j growth).contains i =
      (b.masked i || i == j) := by
  unfold Block.masked
  cases hb : b.mask with
  | none =>
      rw [Option.getD_none, WriteMask.contains_mark _ _ _ hstart, WriteMask.contains, Array.getD_eq_getD_getElem?,
        Array.getElem?_replicate]
      split <;> simp
  | some mask => exact WriteMask.contains_mark mask growth i (hmask mask hb)

theorem toNat_nextPage (p : UInt32) : (nextPage p).toNat = (p.toNat + 1) % 2 ^ 20 := by
  have hone : (1 : UInt32).toNat = 1 := rfl
  rw [nextPage, toNat_pageOf, toNat_pageBase, UInt32.toNat_add, hone]
  omega

theorem nextPage_ne (p : UInt32) : nextPage p ≠ p := by
  intro h
  have hnat := congrArg UInt32.toNat h
  rw [toNat_nextPage] at hnat
  omega

theorem nextPage_inj {p q : UInt32} (hp : p.toNat < 2 ^ 20) (hq : q.toNat < 2 ^ 20) (h : nextPage p = nextPage q) : p = q := by
  have hnat := congrArg UInt32.toNat h
  rw [toNat_nextPage, toNat_nextPage] at hnat
  exact UInt32.toNat_inj.mp (by omega)

namespace Cache

variable {c : Cache} {m n : MonitorId} {id x : BlockId} {E : Finset BlockId} {i j : Nat}

/-! ### How many blocks a page can have -/

/-- A number for each block of a monitor: where it starts or, for companions, where the block starts that goes on in
it. -/
def seat (c : Cache) (x : BlockId) : Nat :=
  if (c.block x).isCompanion then
    pageSize + match (c.block x).companion with
      | some a => (c.block a).start
      | none => 0
  else (c.block x).start

section Seat

variable (h : Orderly c) (hadj : Adjacent c)
include h hadj

theorem seat_primary (hx : (c.block x).owner = some n) (hcomp : (c.block x).isCompanion = true) :
    ∃ a k, (c.block x).companion = some a ∧ (c.block a).owner = some k ∧ (c.block a).isCompanion = false ∧
      (c.monitor n).page = nextPage (c.monitor k).page ∧ c.seat x = pageSize + (c.block a).start := by
  obtain ⟨a, ha⟩ := Option.isSome_iff_exists.mp (h.paired.partner x (live_iff.mpr ⟨n, hx⟩) hcomp)
  have hxa := h.paired.symm x a ha
  obtain ⟨k, hk⟩ := live_iff.mp (h.paired.live a x hxa)
  have hord : (c.block a).isCompanion = false := by rw [h.paired.kind x a ha, hcomp]; rfl
  refine ⟨a, k, ha, hk, hord, hadj a x k n hxa hord hk hx, ?_⟩
  rw [seat, hcomp, ha, if_pos rfl]

/-- The seats of companions come after those of other blocks. -/
theorem seat_bounds (hx : (c.block x).owner = some n) {b : Bool} (hb : (c.block x).isCompanion = b) :
    (if b then pageSize else 0) ≤ c.seat x ∧ c.seat x < (if b then pageSize else 0) + pageSize := by
  have hbound : ∀ a k, (c.block a).owner = some k → (c.block a).start < pageSize := fun a k ha =>
    Nat.lt_of_le_of_lt (h.registry.start_le a (live_iff.mpr ⟨k, ha⟩)) (h.registry.last_lt a (live_iff.mpr ⟨k, ha⟩))
  cases b with
  | false =>
      have := hbound x n hx
      rw [seat, hb, if_neg (by simp), if_neg (by simp)]
      omega
  | true =>
      obtain ⟨a, k, -, hk, -, -, hseat⟩ := seat_primary h hadj hx hb
      have := hbound a k hk
      rw [hseat, if_pos rfl]
      omega

theorem seat_inj {y : BlockId} (hx : (c.block x).owner = some n) (hy : (c.block y).owner = some n)
    (hseat : c.seat x = c.seat y) : x = y := by
  have hbound : ∀ a k, (c.block a).owner = some k → (c.block a).start < pageSize := fun a k ha =>
    Nat.lt_of_le_of_lt (h.registry.start_le a (live_iff.mpr ⟨k, ha⟩)) (h.registry.last_lt a (live_iff.mpr ⟨k, ha⟩))
  have hordinary : ∀ z, (c.block z).isCompanion = false → c.seat z = (c.block z).start := fun z hz => by
    rw [seat, hz, if_neg (by simp)]
  cases hcx : (c.block x).isCompanion with
  | false =>
      rw [hordinary x hcx] at hseat
      cases hcy : (c.block y).isCompanion with
      | false =>
          rw [hordinary y hcy] at hseat
          exact h.registry.start_inj x y n hx hy hcx hcy hseat
      | true =>
          obtain ⟨b, l, -, -, -, -, hy'⟩ := seat_primary h hadj hy hcy
          have := hbound x n hx
          omega
  | true =>
      obtain ⟨a, k, hxa, hk, hca, hpage, hx'⟩ := seat_primary h hadj hx hcx
      cases hcy : (c.block y).isCompanion with
      | false =>
          rw [hordinary y hcy] at hseat
          have := hbound y n hy
          omega
      | true =>
          obtain ⟨b, l, hyb, hl, hcb, hpage', hy'⟩ := seat_primary h hadj hy hcy
          have hkl : k = l := by
            have hkinst := h.registry.installed a k hk
            have hlinst := h.registry.installed b l hl
            have hsame := nextPage_inj (h.watches.page_lt k hkinst) (h.watches.page_lt l hlinst) (hpage.symm.trans hpage')
            have hk' := (h.watches.byPage _ k).mpr ⟨hkinst, hsame⟩
            have hl' := (h.watches.byPage _ l).mpr ⟨hlinst, rfl⟩
            exact Option.some.inj (hk'.symm.trans hl')
          subst hkl
          have hab := h.registry.start_inj a b k hk hl hca hcb (by omega)
          subst hab
          exact Option.some.inj ((h.paired.symm x a hxa).symm.trans (h.paired.symm y a hyb))

/-- A page has at most one block for each start on it, and at most one companion for each start on the page before. -/
theorem card_kind_le (n : MonitorId) (b : Bool) : {x ∈ c.owned n | (c.block x).isCompanion = b}.card ≤ pageSize := by
  have howner : ∀ x ∈ {x ∈ c.owned n | (c.block x).isCompanion = b}, (c.block x).owner = some n := fun x hx =>
    mem_owned.mp (Finset.mem_filter.mp hx).1
  refine (Finset.card_le_card_of_injOn c.seat (fun x hx => ?_) fun x hx y hy hxy => ?_).trans_eq
    ((Nat.card_Ico _ _).trans (Nat.add_sub_cancel_left (if b then pageSize else 0) pageSize))
  · exact Finset.mem_coe.mpr (Finset.mem_Ico.mpr (seat_bounds h hadj (howner x hx) (Finset.mem_filter.mp hx).2))
  · exact seat_inj h hadj (howner x hx) (howner y hy) hxy

theorem card_owned_le (n : MonitorId) : (c.owned n).card ≤ 2 * pageSize := by
  have hsplit : (c.owned n).card ≤ {x ∈ c.owned n | (c.block x).isCompanion = false}.card +
      {x ∈ c.owned n | (c.block x).isCompanion = true}.card := by
    refine (Finset.card_le_card fun x hx => ?_).trans (Finset.card_union_le _ _)
    rw [Finset.mem_union, Finset.mem_filter, Finset.mem_filter]
    exact (Bool.eq_false_or_eq_true _).symm.imp (⟨hx, ·⟩) (⟨hx, ·⟩)
  have hordinary := card_kind_le h hadj n false
  have hcompanions := card_kind_le h hadj n true
  omega

end Seat

/-! ### Taking in a byte -/

/-- A change to the last byte and the mask of a block. -/
theorem Sound.resize (h : Sound c) {f : Block → Block} (hf : ∀ b, f b = { b with last := (f b).last, mask := (f b).mask })
    (hextent : (c.block id).live = true → (c.block id).start ≤ (f (c.block id)).last ∧ (f (c.block id)).last < pageSize) :
    Sound (c.modifyBlock id f) := by
  have hfield : ∀ {α : Type} (g : Block → α) (_ : ∀ b last mask, g { b with last := last, mask := mask } = g b) (x : BlockId),
      g ((c.modifyBlock id f).block x) = g (c.block x) := fun g hg x =>
    map_block_modifyBlock c id x fun b => by rw [hf b]; exact hg b _ _
  have howner := hfield Block.owner fun _ _ _ => rfl
  have hbucket := hfield Block.bucket fun _ _ _ => rfl
  have hstart' := hfield Block.start fun _ _ _ => rfl
  have hcompanion := hfield Block.companion fun _ _ _ => rfl
  have hlive := hfield Block.live fun _ _ _ => rfl
  have hcomp := hfield Block.isCompanion fun _ _ _ => rfl
  have hextent' : ∀ x, (c.block x).live = true →
      (c.block x).start ≤ ((c.modifyBlock id f).block x).last ∧ ((c.modifyBlock id f).block x).last < pageSize := by
    intro x hx
    rw [block_modifyBlock]
    split
    · rename_i hxid
      rw [hxid.1] at hx ⊢
      exact hextent hx
    · exact ⟨h.registry.start_le x hx, h.registry.last_lt x hx⟩
  have howned : ∀ n, (c.modifyBlock id f).owned n = c.owned n := fun n => by
    ext x
    rw [mem_owned, mem_owned, howner]
  have hr := h.registry
  obtain ⟨spans, free, hp⟩ := h.layout.pool
  refine ⟨⟨⟨⟨hr.bucketCount, fun n i x => ?_, hr.nodup, fun x n hx => hr.installed x n (howner x ▸ hx),
    fun x hx => ?_, fun x hx => (hextent' x (hlive x ▸ hx)).2, fun x => ?_, fun x => ?_, fun a b n => ?_, fun n => ?_⟩,
    ⟨fun a b => ?_, fun a b => ?_, fun a b => ?_, fun b => ?_⟩⟩, h.valid,
    h.watches.congr rfl rfl rfl rfl rfl fun _ => rfl⟩, ⟨⟨spans, free, ?_⟩, ?_⟩, h.calm⟩
  · rw [howner, hbucket]
    exact hr.mem_bucket n i x
  · rw [hstart']
    exact (hextent' x (hlive x ▸ hx)).1
  · rw [hlive, hcomp, hbucket, hstart']
    exact hr.ordinary x
  · rw [hlive, hcomp, hstart']
    exact hr.companion x
  · rw [howner, howner, hcomp, hcomp, hstart', hstart']
    exact hr.start_inj a b n
  · rw [howned]
    exact hr.active n
  · rw [hcompanion, hcompanion]
    exact h.paired.symm a b
  · rw [hcompanion, hlive]
    exact h.paired.live a b
  · rw [hcompanion, hcomp, hcomp]
    exact h.paired.kind a b
  · rw [hlive, hcomp, hcompanion]
    exact h.paired.partner b
  · simp only [hfield Block.arenaNext fun _ _ _ => rfl, hfield Block.codeSize fun _ _ _ => rfl]
    exact hp.congr hlive hcomp (hfield Block.freeNext fun _ _ _ => rfl) (hfield Block.codeStart fun _ _ _ => rfl) rfl
      (size_modifyBlock c id f) rfl rfl rfl
  · refine (Clearable.linked_modifyBlock h.layout.linked id (fun b => ?_) fun b => ?_).mono fun x hx => ?_
    · rw [hf]
    · rw [hf]
    · rw [Runnable, hlive, hcomp]
      exact hx

theorem Adjacent.resize (h : Adjacent c) {f : Block → Block} (hf : ∀ b, f b = { b with last := (f b).last, mask := (f b).mask }) :
    Adjacent (c.modifyBlock id f) := by
  have hfield : ∀ {α : Type} (g : Block → α) (_ : ∀ b last mask, g { b with last := last, mask := mask } = g b) (x : BlockId),
      g ((c.modifyBlock id f).block x) = g (c.block x) := fun g hg x =>
    map_block_modifyBlock c id x fun b => by rw [hf b]; exact hg b _ _
  intro a b k l hab ha hk hl
  rw [hfield Block.companion fun _ _ _ => rfl] at hab
  rw [hfield Block.isCompanion fun _ _ _ => rfl] at ha
  rw [hfield Block.owner fun _ _ _ => rfl] at hk hl
  exact h a b k l hab ha hk hl

theorem Sound.coverByte (h : Sound c) (m : MonitorId) (j : Nat) : Sound (c.coverByte m j) := by
  have hfield : ∀ {α : Type} (g : Monitor → α) (_ : ∀ mon cover, g { mon with cover := cover } = g mon) (n : MonitorId),
      g ((c.coverByte m j).monitor n) = g (c.monitor n) := fun g hg n => map_monitor_modifyMonitor c m n fun mon => hg mon _
  have hinst := hfield Monitor.installed fun _ _ => rfl
  have hsize : (c.coverByte m j).monitors.size = c.monitors.size := size_modifyMonitor c m _
  refine ⟨⟨⟨?_, h.paired.congr fun _ => rfl⟩, h.valid, ?_⟩, h.layout.of_body rfl, h.calm⟩
  · refine h.registry.congr rfl (fun _ => rfl) hsize (hfield Monitor.buckets fun _ _ => rfl)
      (fun x n hx => (hinst n).trans (h.registry.installed x n hx)) fun n => ?_
    rw [hfield Monitor.activeBlocks fun _ _ => rfl]
    exact h.registry.active n
  · exact h.watches.congr rfl rfl rfl rfl hsize (hfield Monitor.core fun _ _ => rfl)

theorem Adjacent.coverByte (h : Adjacent c) (m : MonitorId) (j : Nat) : Adjacent (c.coverByte m j) :=
  h.congr (fun _ => rfl) fun _ n _ => map_monitor_modifyMonitor (g := Monitor.page) c m n fun _ => rfl

theorem Sound.extendTo (h : Sound c) (id : BlockId) (hj : j < pageSize) : Sound (c.extendTo id j) := by
  refine h.resize (fun _ => rfl) fun hlive => ⟨?_, ?_⟩
  · exact Nat.le_trans (h.registry.start_le id hlive) (Nat.le_max_left ..)
  · exact Nat.max_lt.mpr ⟨h.registry.last_lt id hlive, hj⟩

theorem Sound.maskByte (h : Sound c) (id : BlockId) (j : Nat) : Sound (c.maskByte id j) :=
  h.resize (fun _ => rfl) fun hlive => ⟨h.registry.start_le id hlive, h.registry.last_lt id hlive⟩

/-- The byte at an offset is the next one a block takes in: its first one, or the one after its last. -/
def TakesNext (c : Cache) (E : Finset BlockId) (id : BlockId) (j : Nat) : Prop :=
  id ∈ E ∧ (c.block id).start = j ∧ (c.block id).last = j ∧ (c.block id).mask = none ∨
    id ∉ E ∧ j = (c.block id).last + 1 ∧ (c.block id).masked j = false

theorem TakesNext.start_le (h : TakesNext c E id j) (hs : Sound c) (hlive : (c.block id).live = true) :
    (c.block id).start ≤ j ∧ (c.block id).last ≤ j ∧ (c.block id).masked j = false := by
  rcases h with ⟨-, hstart, hlast, hmask⟩ | ⟨-, hj, hmask⟩
  · exact ⟨hstart.le, hlast.le, by rw [Block.masked, hmask]⟩
  · have := hs.registry.start_le id hlive
    exact ⟨by omega, by omega, hmask⟩

theorem TakesNext.congr (h : TakesNext c E id j) {c' : Cache} {E' : Finset BlockId} (hE : id ∈ E' ↔ id ∈ E)
    (hclaim : (c'.block id).claim = (c.block id).claim) : TakesNext c' E' id j := by
  rw [TakesNext, Block.start_eq_of_claim hclaim, Block.last_eq_of_claim hclaim, Block.mask_eq_of_claim hclaim,
    Block.masked_eq_of_claim hclaim, hE]
  exact h

/-- Who depends on a byte after a block took in its next one, `hot` saying that it reads this one when it runs. -/
theorem dependents_take (ht : TakesNext c E id j) (hs : Sound c) (hid : (c.block id).owner = some m) {f : Block → Block}
    (hf : ∀ b, f b = { b with last := (f b).last, mask := (f b).mask }) (hlast : (f (c.block id)).last = j) {hot : Bool}
    (hmask : ∀ i, (f (c.block id)).masked i = ((c.block id).masked i || (hot && i == j))) (n : MonitorId) (i : Nat) :
    (c.modifyBlock id f).dependents n i \ E.erase id =
      if n = m ∧ i = j ∧ hot = false then insert id (c.dependents n i \ E) else c.dependents n i \ E := by
  have hlive : (c.block id).live = true := live_iff.mpr ⟨m, hid⟩
  obtain ⟨hstart, -, hfresh⟩ := ht.start_le hs hlive
  have hself : (c.modifyBlock id f).block id = f (c.block id) := block_modifyBlock_self (lt_size_of_live hlive) f
  have hdep : id ∈ (c.modifyBlock id f).dependents n i ↔
      m = n ∧ (c.block id).start ≤ i ∧ i ≤ j ∧ (c.block id).masked i = false ∧ ¬(hot = true ∧ i = j) := by
    rw [mem_dependents, hself, hmask, hlast, hf]
    simp [hid]
  ext x
  by_cases hx : x = id
  · subst hx
    have hold : x ∈ c.dependents n i \ E ↔ m = n ∧ (c.block x).start ≤ i ∧ i ≤ (c.block x).last ∧
        (c.block x).masked i = false ∧ x ∉ E := by
      simp [hid, and_assoc]
    rw [Finset.mem_sdiff, hdep]
    split
    · rename_i hnew
      obtain ⟨rfl, rfl, rfl⟩ := hnew
      simp [hstart, hfresh]
    · rename_i hnew
      rw [hold]
      rcases ht with ⟨hE, hs, -, -⟩ | ⟨hE, hj, -⟩
      · refine iff_of_false ?_ fun h => h.2.2.2.2 hE
        rintro ⟨⟨rfl, hsi, hij, -, hhot⟩, -⟩
        have hi : i = j := by omega
        exact hnew ⟨rfl, hi, by simpa [hi] using hhot⟩
      · simp only [Finset.notMem_erase, not_false_eq_true, and_true, hE]
        constructor
        · rintro ⟨rfl, hsi, hij, hmi, hhot⟩
          refine ⟨rfl, hsi, ?_, hmi⟩
          have hi : i ≠ j := fun hi => hnew ⟨rfl, hi, by simpa [hi] using hhot⟩
          omega
        · rintro ⟨rfl, hsi, hil, hmi⟩
          exact ⟨rfl, hsi, by omega, hmi, fun h => by omega⟩
  · rw [Finset.mem_sdiff, mem_dependents, block_modifyBlock_ne _ hx, ← mem_dependents]
    split <;> simp [hx]

theorem getD_coverByte (hm : (c.monitor m).installed = true) (hcover : (c.monitor m).cover.size = pageSize) (hi : i < pageSize)
    (n : MonitorId) :
    ((c.coverByte m j).monitor n).cover.getD i 0 =
      if n = m ∧ i = j then (c.monitor n).cover.getD i 0 + 1 else (c.monitor n).cover.getD i 0 := by
  unfold coverByte
  by_cases hn : n = m
  · subst hn
    rw [monitor_modifyMonitor_self (lt_size_of_installed hm), Array.getD_eq_getD_getElem?, Array.getElem?_modify]
    by_cases hij : j = i
    · subst hij
      rw [if_pos rfl, if_pos ⟨rfl, rfl⟩, Array.getD_eq_getD_getElem?, Array.getElem?_eq_getElem (hcover ▸ hi)]
      rfl
    · rw [if_neg hij, if_neg fun h => hij h.2.symm, Array.getD_eq_getD_getElem?]
  · rw [monitor_modifyMonitor_ne _ hn, if_neg fun h => hn h.1]

/-- A block takes in its next byte. -/
theorem Consistent.countByte (h : Consistent c E) (hid : (c.block id).owner = some m) (ht : TakesNext c E id j) :
    Exact ((c.coverByte m j).extendTo id j) (E.erase id) := by
  have hlive : (c.block id).live = true := live_iff.mpr ⟨m, hid⟩
  obtain ⟨hstart, hle, hfresh⟩ := ht.start_le h.toSound hlive
  have hm := h.registry.installed id m hid
  have hcover := h.census.size m hm
  have hinst : ∀ n, ((c.coverByte m j).monitor n).installed = (c.monitor n).installed := fun n =>
    map_monitor_modifyMonitor (g := Monitor.installed) c m n fun _ => rfl
  have hmask : ∀ i, ({ c.block id with last := max (c.block id).last j } : Block).masked i =
      ((c.block id).masked i || (false && i == j)) := fun i => by rw [Bool.false_and, Bool.or_false]; rfl
  have hdep := fun n i => dependents_take (m := m) ht h.toSound hid (f := fun b => { b with last := max b.last j }) (fun _ => rfl)
    (by simpa using hle) hmask n i
  refine ⟨(h.adjacent.coverByte m j).resize fun _ => rfl, fun n hn => ?_, fun n hn i hi => ?_⟩
  · change ((c.coverByte m j).monitor n).cover.size = pageSize
    rw [coverByte]
    have hsize : ((c.modifyMonitor m fun mon => { mon with cover := mon.cover.modify j (· + 1) }).monitor n).cover.size =
        (c.monitor n).cover.size :=
      map_monitor_modifyMonitor (g := fun mon : Monitor => mon.cover.size) c m n fun _ => Array.size_modify ..
    rw [hsize]
    exact h.census.size n (hinst n ▸ hn)
  · change (((c.coverByte m j).monitor n).cover.getD i 0).toNat =
      ((c.modifyBlock id fun b => { b with last := max b.last j }).dependents n i \ E.erase id).card
    rw [hdep, getD_coverByte hm hcover hi]
    have hcount := h.census.count n (hinst n ▸ hn) i hi
    by_cases hnew : n = m ∧ i = j
    · obtain ⟨rfl, rfl⟩ := hnew
      have hnot : id ∉ c.dependents n i \ E := by
        rw [Finset.mem_sdiff, mem_dependents]
        rintro ⟨⟨-, -, hlast, -⟩, hE⟩
        rcases ht with ⟨hE', -⟩ | ⟨-, hi', -⟩
        · exact hE hE'
        · omega
      have hsub : (c.dependents n i \ E).card ≤ (c.owned n).card :=
        Finset.card_le_card fun x hx => mem_owned.mpr (mem_dependents.mp (Finset.mem_sdiff.mp hx).1).1
      have hbound := hsub.trans (card_owned_le h.toOrderly h.adjacent n)
      have hone : (1 : UInt16).toNat = 1 := rfl
      rw [if_pos ⟨rfl, rfl⟩, if_pos ⟨rfl, rfl, rfl⟩, Finset.card_insert_of_notMem hnot, UInt16.toNat_add, hcount, hone]
      unfold pageSize at hbound
      omega
    · rw [if_neg hnew, if_neg fun h' => hnew ⟨h'.1, h'.2.1⟩]
      exact hcount

/-- A block takes in its next byte as one that it reads when it runs. -/
theorem Consistent.hotByte (h : Consistent c E) (hid : (c.block id).owner = some m) (ht : TakesNext c E id j)
    (hmask : ∀ mask, (c.block id).mask = some mask → mask.start ≤ j) :
    Exact ((c.maskByte id j).extendTo id j) (E.erase id) := by
  have hlive : (c.block id).live = true := live_iff.mpr ⟨m, hid⟩
  obtain ⟨hstart, hle, hfresh⟩ := ht.start_le h.toSound hlive
  have hmarked := fun i => (c.block id).contains_mark c.settings.maskInitialLen c.settings.maskGrowth i hstart hmask
  have hboth : (c.maskByte id j).extendTo id j = c.modifyBlock id fun b =>
      { b with
        last := max b.last j
        mask := some ((b.mask.getD { start := b.start, bits := Array.replicate c.settings.maskInitialLen false }).mark j
          c.settings.maskGrowth) } := modifyBlock_modifyBlock ..
  rw [hboth]
  generalize hf : (fun b : Block =>
      ({ b with
        last := max b.last j
        mask := some ((b.mask.getD { start := b.start, bits := Array.replicate c.settings.maskInitialLen false }).mark j
          c.settings.maskGrowth) } : Block)) = f
  have hmasked : ∀ i, (f (c.block id)).masked i = ((c.block id).masked i || (true && i == j)) := fun i => by
    rw [Bool.true_and, ← hf]
    exact hmarked i
  have hkeep : ∀ b, f b = { b with last := (f b).last, mask := (f b).mask } := fun b => by rw [← hf]
  have hlast : (f (c.block id)).last = j := by
    rw [← hf]
    simpa using hle
  refine ⟨h.adjacent.resize hkeep, h.census.size, fun n hn i hi => ?_⟩
  rw [dependents_take ht h.toSound hid hkeep hlast hmasked, if_neg (by simp)]
  exact h.census.count n hn i hi

/-- Takes a byte into a block of a monitor, `hot` if the block reads it when it runs. -/
def takeByte (c : Cache) (m : MonitorId) (id : BlockId) (hot : Bool) (j : Nat) : Cache :=
  (if hot then c.maskByte id j else c.coverByte m j).extendTo id j

theorem Sound.takeByte (h : Sound c) (m : MonitorId) (id : BlockId) (hot : Bool) (hj : j < pageSize) :
    Sound (c.takeByte m id hot j) := by
  cases hot with
  | false => exact (h.coverByte m j).extendTo id hj
  | true => exact (h.maskByte id j).extendTo id hj

theorem Adjacent.takeByte (h : Adjacent c) (m : MonitorId) (id : BlockId) (hot : Bool) (j : Nat) :
    Adjacent (c.takeByte m id hot j) := by
  cases hot with
  | false => exact (h.coverByte m j).resize fun _ => rfl
  | true => exact (h.resize fun _ => rfl).resize fun _ => rfl

theorem Consistent.takeByte (h : Consistent c E) (hid : (c.block id).owner = some m) (hj : j < pageSize)
    (ht : TakesNext c E id j) (hmask : ∀ mask, (c.block id).mask = some mask → mask.start ≤ j) (hot : Bool) :
    Consistent (c.takeByte m id hot j) (E.erase id) := by
  refine ⟨h.toSound.takeByte m id hot hj, ?_⟩
  cases hot with
  | false => exact h.countByte hid ht
  | true => exact h.hotByte hid ht hmask

theorem ShellSame.takeByte (c : Cache) (m : MonitorId) (id : BlockId) (hot : Bool) (j : Nat) :
    ShellSame c (c.takeByte m id hot j) := by
  cases hot with
  | false => exact (ShellSame.modifyMonitor c m _).trans (.modifyBlock _ id _)
  | true => exact (ShellSame.modifyBlock c id _).trans (.modifyBlock _ id _)

/-- Taking in a byte changes nothing but the last byte and the mask of a block. -/
theorem map_block_takeByte {α : Type} {g : Block → α} (hg : ∀ b last mask, g { b with last := last, mask := mask } = g b)
    (c : Cache) (m : MonitorId) (id : BlockId) (hot : Bool) (j : Nat) (x : BlockId) :
    g ((c.takeByte m id hot j).block x) = g (c.block x) := by
  have hextend : ∀ c : Cache, g ((c.extendTo id j).block x) = g (c.block x) := fun c =>
    map_block_modifyBlock c id x fun b => hg b _ _
  cases hot with
  | false => exact hextend (c.coverByte m j)
  | true => exact (hextend (c.maskByte id j)).trans (map_block_modifyBlock c id x fun b => hg b _ _)

theorem block_takeByte_ne {x : BlockId} (hx : x ≠ id) (c : Cache) (m : MonitorId) (hot : Bool) (j : Nat) :
    (c.takeByte m id hot j).block x = c.block x := by
  cases hot with
  | false => exact block_modifyBlock_ne (c.coverByte m j) hx _
  | true => exact (block_modifyBlock_ne (c.maskByte id j) hx _).trans (block_modifyBlock_ne c hx _)

theorem core_monitor_takeByte (c : Cache) (m : MonitorId) (id : BlockId) (hot : Bool) (j : Nat) (n : MonitorId) :
    ((c.takeByte m id hot j).monitor n).core = (c.monitor n).core := by
  cases hot with
  | false => exact map_monitor_modifyMonitor c m n fun _ => rfl
  | true => rfl

/-- What taking in a byte does to descriptors and monitors. -/
structure Took (id : BlockId) (hot : Bool) (j : Nat) (c c' : Cache) : Prop where
  same : ShellSame c c'
  self : c'.block id = { c.block id with last := max (c.block id).last j, mask := (c'.block id).mask }
  masked : ∀ i, (c'.block id).masked i = ((c.block id).masked i || (hot && i == j))
  mask : hot = false → (c'.block id).mask = (c.block id).mask
  maskStart : (∀ mask, (c.block id).mask = some mask → mask.start = (c.block id).start) →
    ∀ mask, (c'.block id).mask = some mask → mask.start = (c.block id).start
  other : ∀ x, x ≠ id → c'.block x = c.block x
  core : ∀ n, (c'.monitor n).core = (c.monitor n).core

theorem took_cold (hid : id < c.blocks.size) (m : MonitorId) (j : Nat) : Took id false j c (c.takeByte m id false j) := by
  have hself : (c.takeByte m id false j).block id = { c.block id with last := max (c.block id).last j } :=
    block_modifyBlock_self (c := c.coverByte m j) hid _
  refine ⟨.takeByte c m id false j, by rw [hself], fun i => ?_, fun _ => by rw [hself], fun hold => ?_,
    fun x hx => block_takeByte_ne hx c m false j, core_monitor_takeByte c m id false j⟩
  · rw [hself, Bool.false_and, Bool.or_false]
    rfl
  · rw [hself]
    exact hold

theorem took_takeByte (hid : id < c.blocks.size) (hstart : (c.block id).start ≤ j)
    (hmask : ∀ mask, (c.block id).mask = some mask → mask.start ≤ j) (m : MonitorId) (hot : Bool) :
    Took id hot j c (c.takeByte m id hot j) := by
  cases hot with
  | false => exact took_cold hid m j
  | true =>
      have hboth : c.takeByte m id true j = c.modifyBlock id fun b =>
          { b with
            last := max b.last j
            mask := some ((b.mask.getD { start := b.start, bits := Array.replicate c.settings.maskInitialLen false }).mark j
              c.settings.maskGrowth) } := modifyBlock_modifyBlock ..
      rw [hboth]
      have hself := block_modifyBlock_self hid fun b =>
          { b with
            last := max b.last j
            mask := some ((b.mask.getD { start := b.start, bits := Array.replicate c.settings.maskInitialLen false }).mark j
              c.settings.maskGrowth) }
      refine ⟨.modifyBlock c id _, by rw [hself], fun i => ?_, fun h => absurd h (by simp), fun hold mask hnew => ?_,
        fun x hx => block_modifyBlock_ne c hx _, fun n => rfl⟩
      · rw [hself, Bool.true_and]
        exact (c.block id).contains_mark _ _ i hstart hmask
      · rw [hself] at hnew
        obtain rfl := Option.some.inj hnew
        cases hb : (c.block id).mask with
        | none => rfl
        | some old => exact hold old hb

end Cache

end Recompiler
