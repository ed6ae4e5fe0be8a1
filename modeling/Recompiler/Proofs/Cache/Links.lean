import Recompiler.Proofs.Cache.Access
import Recompiler.Proofs.Path

/-! Links between blocks. For each slot the sources of a block form a list that is threaded through their own
descriptors. The lists are sound if a block stands on the list of exactly the block its slot leads to; severing a
block keeps them so and leaves no link from or to it. -/

namespace Recompiler.Cache

/-- Two caches that differ at most in links, the link table and the counts. -/
structure LinksApart (c c' : Cache) : Prop where
  shell : c'.shell = c.shell
  monitors : c'.monitors = c.monitors
  freeHead : c'.freeHead = c.freeHead
  size : c'.blocks.size = c.blocks.size
  unlinked : ∀ x, (c'.block x).unlinked = (c.block x).unlinked
  tableSize : c'.linkTable.size = c.linkTable.size

namespace LinksApart

variable {c c' c'' : Cache}

theorem refl (c : Cache) : LinksApart c c :=
  ⟨rfl, rfl, rfl, rfl, fun _ => rfl, rfl⟩

theorem trans (h : LinksApart c c') (h' : LinksApart c' c'') : LinksApart c c'' where
  shell := h'.shell.trans h.shell
  monitors := h'.monitors.trans h.monitors
  freeHead := h'.freeHead.trans h.freeHead
  size := h'.size.trans h.size
  unlinked x := (h'.unlinked x).trans (h.unlinked x)
  tableSize := h'.tableSize.trans h.tableSize

theorem modifyLink (c : Cache) (id : BlockId) (k : Slot) (f : LinkSlot → LinkSlot) :
    LinksApart c (c.modifyLink id k f) where
  shell := rfl
  monitors := rfl
  freeHead := rfl
  size := by simp [Cache.modifyLink]
  unlinked x := map_block_modifyBlock c id x fun _ => rfl
  tableSize := rfl

theorem setLinkEntry (c : Cache) (id : BlockId) (k : Slot) (addr : Nat) : LinksApart c (c.setLinkEntry id k addr) where
  shell := rfl
  monitors := rfl
  freeHead := rfl
  size := rfl
  unlinked _ := rfl
  tableSize := by simp [Cache.setLinkEntry]

theorem modifyStats (c : Cache) (f : CacheStats → CacheStats) : LinksApart c (c.modifyStats f) :=
  ⟨rfl, rfl, rfl, rfl, fun _ => rfl, rfl⟩

theorem resetLink (c : Cache) (id : BlockId) (k : Slot) : LinksApart c (c.resetLink id k) :=
  (modifyLink c id k _).trans (setLinkEntry _ id k _)

theorem resetSources (k : Slot) (n : Nat) (start : Option BlockId) (c : Cache) :
    LinksApart c (Cache.resetSources k n start c) := by
  induction n generalizing start c with
  | zero => exact refl c
  | succ n ih =>
      cases start with
      | none => exact refl c
      | some id => exact (resetLink c id k).trans (ih _ _)

theorem unlink (c : Cache) (target : BlockId) (k : Slot) (id : BlockId) : LinksApart c (c.unlink target k id) := by
  unfold Cache.unlink
  dsimp only
  split
  · exact modifyStats c _
  · split
    · exact modifyLink c target k _
    · split
      · exact modifyStats c _
      · exact modifyLink c _ k _

theorem dropSources (id : BlockId) (c : Cache) (k : Slot) : LinksApart c (Cache.dropSources id c k) :=
  (modifyLink c id k _).trans (resetSources k _ _ _)

theorem dropTarget (id : BlockId) (c : Cache) (k : Slot) : LinksApart c (Cache.dropTarget id c k) := by
  unfold Cache.dropTarget
  split
  · exact unlink c _ k id
  · exact refl c

theorem severSlot (id : BlockId) (c : Cache) (k : Slot) : LinksApart c (Cache.severSlot id c k) :=
  ((dropSources id c k).trans (dropTarget id _ k)).trans (resetLink _ id k)

theorem sever (c : Cache) (id : BlockId) : LinksApart c (c.sever id) :=
  (severSlot id c .first).trans (severSlot id _ .second)

theorem link (c : Cache) (id : BlockId) (k : Slot) (target : BlockId) : LinksApart c (c.link id k target) := by
  unfold Cache.link
  exact (((modifyLink c id k _).trans (modifyLink _ target k _)).trans (setLinkEntry _ id k _)).trans (modifyStats _ _)

theorem core (h : LinksApart c c') (x : BlockId) : (c'.block x).core = (c.block x).core :=
  Block.core_eq_of_unlinked_eq (h.unlinked x)

theorem monitor (h : LinksApart c c') (m : MonitorId) : c'.monitor m = c.monitor m := by
  rw [Cache.monitor, Cache.monitor, h.monitors]

theorem stubs (h : LinksApart c c') : c'.stubs = c.stubs := by
  have hshell := congrArg Cache.stubs h.shell
  exact hshell

end LinksApart

/-! ### Reading links -/

variable (c : Cache) (id x : BlockId) (k k' : Slot)

theorem linkSlot_modifyLink (f : LinkSlot → LinkSlot) :
    (c.modifyLink id k f).linkSlot x k' =
      if x = id ∧ k' = k ∧ x < c.blocks.size then f (c.linkSlot x k') else c.linkSlot x k' := by
  unfold linkSlot modifyLink
  rw [block_modifyBlock]
  by_cases hx : x = id ∧ x < c.blocks.size
  · rw [if_pos hx]
    by_cases hk : k' = k
    · subst hk
      rw [if_pos ⟨hx.1, rfl, hx.2⟩, PerSlot.get_modify_self]
    · rw [if_neg fun h => hk h.2.1, PerSlot.get_modify_of_ne _ hk]
  · rw [if_neg hx, if_neg fun h => hx ⟨h.1, h.2.2⟩]

@[simp] theorem linkSlot_setLinkEntry (addr : Nat) : (c.setLinkEntry id k addr).linkSlot x k' = c.linkSlot x k' := rfl

@[simp] theorem linkSlot_modifyStats (f : CacheStats → CacheStats) :
    (c.modifyStats f).linkSlot x k' = c.linkSlot x k' := rfl

@[simp] theorem linkEntry_modifyLink (f : LinkSlot → LinkSlot) :
    (c.modifyLink id k f).linkEntry x k' = c.linkEntry x k' := rfl

@[simp] theorem linkEntry_modifyStats (f : CacheStats → CacheStats) :
    (c.modifyStats f).linkEntry x k' = c.linkEntry x k' := rfl

theorem tableIndex_inj {a b : Nat} {k k' : Slot} : 2 * a + k.index = 2 * b + k'.index ↔ b = a ∧ k' = k := by
  cases k <;> cases k' <;> simp [Slot.index] <;> omega

theorem tableIndex_lt {c : Cache} {id : BlockId} (hsize : c.linkTable.size = 2 * c.blocks.size) (h : id < c.blocks.size)
    (k : Slot) : 2 * id + k.index < c.linkTable.size := by
  have hindex : k.index ≤ 1 := by cases k <;> simp [Slot.index]
  rw [hsize]
  exact Nat.lt_of_lt_of_le (Nat.add_lt_add_left (Nat.lt_succ_of_le hindex) _) (Nat.mul_le_mul_left 2 h)

theorem linkEntry_setLinkEntry (addr : Nat) :
    (c.setLinkEntry id k addr).linkEntry x k' =
      if x = id ∧ k' = k ∧ 2 * x + k'.index < c.linkTable.size then addr else c.linkEntry x k' := by
  unfold linkEntry setLinkEntry
  simp only [Array.getD_eq_getD_getElem?, Array.getElem?_setIfInBounds, tableIndex_inj]
  by_cases h : x = id ∧ k' = k
  · obtain ⟨rfl, rfl⟩ := h
    by_cases hlt : 2 * x + k'.index < c.linkTable.size
    · simp [hlt]
    · simp [hlt]
  · rw [if_neg h, if_neg fun h' => h ⟨h'.1, h'.2.1⟩]

theorem linkSlot_of_size_le {c : Cache} {id : BlockId} (h : c.blocks.size ≤ id) (k : Slot) : c.linkSlot id k = {} := by
  rw [linkSlot, block_of_size_le h]
  cases k <;> rfl

theorem lt_size_of_target {c : Cache} {id b : BlockId} {k : Slot} (h : (c.linkSlot id k).target = some b) :
    id < c.blocks.size := by
  by_contra hlt
  rw [linkSlot_of_size_le (Nat.le_of_not_lt hlt)] at h
  exact absurd h (by simp)

/-! ### Lists of sources -/

/-- `sources b` lists the blocks whose slot leads to `b`. -/
structure SlotSound (c : Cache) (k : Slot) (sources : BlockId → List BlockId) : Prop where
  path : ∀ b, Path (fun a => (c.linkSlot a k).next) (c.linkSlot b k).source (sources b) none
  mem : ∀ a b, a ∈ sources b ↔ (c.linkSlot a k).target = some b
  idle : ∀ a, (c.linkSlot a k).target = none → (c.linkSlot a k).next = none

/-- The slot of a block after it was sent to its stub. -/
def idleSlot (l : LinkSlot) : LinkSlot :=
  { l with target := none, next := none }

theorem idleSlot_of_idle {l : LinkSlot} (htarget : l.target = none) (hnext : l.next = none) : idleSlot l = l := by
  obtain ⟨target, next, source⟩ := l
  subst htarget hnext
  rfl

theorem linkSlot_resetLink (h : id < c.blocks.size) :
    (c.resetLink id k).linkSlot x k' = if x = id ∧ k' = k then idleSlot (c.linkSlot x k') else c.linkSlot x k' := by
  unfold resetLink
  simp only [linkSlot_setLinkEntry, linkSlot_modifyLink]
  by_cases hx : x = id ∧ k' = k
  · rw [if_pos ⟨hx.1, hx.2, hx.1 ▸ h⟩, if_pos hx, idleSlot]
  · rw [if_neg fun h' => hx ⟨h'.1, h'.2.1⟩, if_neg hx]

theorem linkEntry_resetLink (hsize : c.linkTable.size = 2 * c.blocks.size) (h : id < c.blocks.size) :
    (c.resetLink id k).linkEntry x k' = if x = id ∧ k' = k then c.stubs.get k else c.linkEntry x k' := by
  unfold resetLink
  simp only [linkEntry_setLinkEntry, linkEntry_modifyLink]
  by_cases hx : x = id ∧ k' = k
  · obtain ⟨rfl, rfl⟩ := hx
    rw [if_pos ⟨rfl, rfl, tableIndex_lt hsize h k'⟩, if_pos ⟨rfl, rfl⟩]
    rfl
  · rw [if_neg fun h' => hx ⟨h'.1, h'.2.1⟩, if_neg hx]

section ResetSources

variable {c k} {l : List BlockId} {start : Option BlockId} {n : Nat}

theorem linkSlot_resetSources (hpath : Path (fun a => (c.linkSlot a k).next) start l none) (hn : l.length ≤ n)
    (hl : ∀ a ∈ l, a < c.blocks.size) (x : BlockId) (k' : Slot) :
    (resetSources k n start c).linkSlot x k' =
      if k' = k ∧ x ∈ l then idleSlot (c.linkSlot x k') else c.linkSlot x k' := by
  induction l generalizing start n c with
  | nil =>
      rw [if_neg (by simp), Path.nil_iff.mp hpath]
      cases n <;> rfl
  | cons a l ih =>
      obtain ⟨n, rfl⟩ : ∃ j, n = j + 1 := ⟨n - 1, by simp only [List.length_cons] at hn; omega⟩
      have ha : a < c.blocks.size := hl a List.mem_cons_self
      have hnot : a ∉ l := (List.nodup_cons.mp hpath.nodup).1
      have hslot := fun y j => linkSlot_resetLink c a y k j ha
      have hrest : Path (fun b => ((c.resetLink a k).linkSlot b k).next) (c.linkSlot a k).next l none := by
        refine hpath.2.congr fun b hb => ?_
        rw [hslot, if_neg fun h : b = a ∧ k = k => hnot (h.1 ▸ hb)]
      rw [hpath.1, resetSources, ih hrest (by simpa using hn)
        (fun b hb => by rw [(LinksApart.resetLink c a k).size]; exact hl b (List.mem_cons_of_mem a hb)), hslot]
      by_cases hk : k' = k
      · subst hk
        by_cases hx : x = a
        · subst hx
          simp [hnot]
        · simp [hx]
      · simp [hk]

theorem linkEntry_resetSources (hsize : c.linkTable.size = 2 * c.blocks.size)
    (hpath : Path (fun a => (c.linkSlot a k).next) start l none) (hn : l.length ≤ n)
    (hl : ∀ a ∈ l, a < c.blocks.size) (x : BlockId) (k' : Slot) :
    (resetSources k n start c).linkEntry x k' = if k' = k ∧ x ∈ l then c.stubs.get k else c.linkEntry x k' := by
  induction l generalizing start n c with
  | nil =>
      rw [if_neg (by simp), Path.nil_iff.mp hpath]
      cases n <;> rfl
  | cons a l ih =>
      obtain ⟨n, rfl⟩ : ∃ j, n = j + 1 := ⟨n - 1, by simp only [List.length_cons] at hn; omega⟩
      have ha : a < c.blocks.size := hl a List.mem_cons_self
      have hnot : a ∉ l := (List.nodup_cons.mp hpath.nodup).1
      have hapart := LinksApart.resetLink c a k
      have hrest : Path (fun b => ((c.resetLink a k).linkSlot b k).next) (c.linkSlot a k).next l none := by
        refine hpath.2.congr fun b hb => ?_
        rw [linkSlot_resetLink c a b k k ha, if_neg fun h : b = a ∧ k = k => hnot (h.1 ▸ hb)]
      rw [hpath.1, resetSources, ih (by rw [hapart.tableSize, hapart.size, hsize]) hrest (by simpa using hn)
        (fun b hb => by rw [hapart.size]; exact hl b (List.mem_cons_of_mem a hb)),
        linkEntry_resetLink c a x k k' hsize ha]
      have hstubs : (c.resetLink a k).stubs = c.stubs := rfl
      rw [hstubs]
      by_cases hk : k' = k
      · by_cases hx : x = a
        · simp [hk, hx]
        · simp [hk, hx]
      · simp [hk]

theorem stats_resetSources (k : Slot) (n : Nat) (start : Option BlockId) (c : Cache) :
    (resetSources k n start c).stats = c.stats := by
  induction n generalizing start c with
  | zero => rfl
  | succ n ih =>
      cases start with
      | none => rfl
      | some a => exact ih _ _

end ResetSources

namespace SlotSound

variable {c k} {sources : BlockId → List BlockId} {id}

theorem lt_size (h : SlotSound c k sources) {a b : BlockId} (ha : a ∈ sources b) : a < c.blocks.size :=
  lt_size_of_target ((h.mem a b).mp ha)

theorem length_le (h : SlotSound c k sources) (b : BlockId) : (sources b).length ≤ c.blocks.size := by
  have hsub : sources b ⊆ List.range c.blocks.size := fun a ha => List.mem_range.mpr (h.lt_size ha)
  simpa using ((h.path b).nodup.subperm hsub).length_le

/-- The link slots after the sources of a block were sent to their stubs. -/
theorem linkSlot_dropSources (h : SlotSound c k sources) (hid : id < c.blocks.size) (x : BlockId) (k' : Slot) :
    (dropSources id c k).linkSlot x k' =
      if k' = k then
        let l := if x = id then { c.linkSlot x k with source := none } else c.linkSlot x k
        if (c.linkSlot x k).target = some id then idleSlot l else l
      else c.linkSlot x k' := by
  have hnext : ∀ a, ((c.modifyLink id k fun l => { l with source := none }).linkSlot a k).next =
      (c.linkSlot a k).next := by
    intro a
    rw [linkSlot_modifyLink]
    split <;> rfl
  have hpath : Path (fun a => ((c.modifyLink id k fun l => { l with source := none }).linkSlot a k).next)
      (c.linkSlot id k).source (sources id) none :=
    (h.path id).congr fun a _ => hnext a
  unfold dropSources
  rw [linkSlot_resetSources hpath
    (by rw [(LinksApart.modifyLink c id k _).size]; exact (h.length_le id).trans (Nat.le_succ _))
    (fun a ha => by rw [(LinksApart.modifyLink c id k _).size]; exact h.lt_size ha), linkSlot_modifyLink]
  simp only [h.mem]
  by_cases hk : k' = k
  · subst hk
    by_cases hx : x = id
    · subst hx
      simp [hid]
    · simp [hx]
  · simp [hk]

theorem dropSources (h : SlotSound c k sources) (hid : id < c.blocks.size) :
    SlotSound (dropSources id c k) k (Function.update sources id []) := by
  have hslot := fun x => h.linkSlot_dropSources hid x k
  simp only [if_true] at hslot
  have htarget : ∀ x, ((Cache.dropSources id c k).linkSlot x k).target =
      if (c.linkSlot x k).target = some id then none else (c.linkSlot x k).target := by
    intro x
    rw [hslot]
    split
    · rfl
    · split <;> rfl
  refine ⟨fun b => ?_, fun a b => ?_, fun a ha => ?_⟩
  · by_cases hb : b = id
    · subst hb
      rw [Function.update_self, Path.nil_iff, hslot]
      simp only [if_true]
      split <;> rfl
    · rw [Function.update_of_ne hb]
      have hsource : ((Cache.dropSources id c k).linkSlot b k).source = (c.linkSlot b k).source := by
        rw [hslot, if_neg hb]
        split <;> rfl
      rw [hsource]
      refine (h.path b).congr fun a ha => ?_
      have hne : (c.linkSlot a k).target ≠ some id := by
        rw [(h.mem a b).mp ha]
        exact fun h' => hb (Option.some.inj h')
      rw [hslot, if_neg hne]
      split <;> rfl
  · rw [htarget]
    by_cases hb : b = id
    · subst hb
      rw [Function.update_self]
      split
      · simp
      · rename_i hne
        simp [hne]
    · rw [Function.update_of_ne hb, h.mem]
      split
      · rename_i heq
        rw [heq]
        simp [Ne.symm hb]
      · rfl
  · rw [hslot]
    rw [htarget] at ha
    split
    · rfl
    · rename_i hne
      rw [if_neg hne] at ha
      split
      · exact h.idle a ha
      · exact h.idle a ha

end SlotSound

/-- The walk that looks for a block stops at the one before it. -/
theorem sourceBefore_eq {mid after : List BlockId} {head : BlockId} {n : Nat}
    (hpath : Path (fun a => (c.linkSlot a k).next) (some head) (head :: (mid ++ id :: after)) none)
    (hn : mid.length < n) : sourceBefore c k id n head = some ((head :: mid).getLast (List.cons_ne_nil head mid)) := by
  induction mid generalizing head n with
  | nil =>
      obtain ⟨n, rfl⟩ : ∃ j, n = j + 1 := ⟨n - 1, by simp only [List.length_nil] at hn; omega⟩
      have hnext : (c.linkSlot head k).next = some id := hpath.2.1
      rw [sourceBefore, hnext]
      simp
  | cons b mid ih =>
      obtain ⟨n, rfl⟩ : ∃ j, n = j + 1 := ⟨n - 1, by simp only [List.length_cons] at hn; omega⟩
      have hnext : (c.linkSlot head k).next = some b := hpath.2.1
      have hne : b ≠ id := by
        rintro rfl
        have hnodup := hpath.nodup
        simp at hnodup
      have hrest : Path (fun a => (c.linkSlot a k).next) (some b) (b :: (mid ++ id :: after)) none := ⟨rfl, hpath.2.2⟩
      rw [sourceBefore, hnext]
      simp only [hne, if_false]
      rw [ih hrest (by simpa using hn)]
      simp

namespace SlotSound

variable {c k} {sources : BlockId → List BlockId} {id}

/-- Unlinking a block changes one link: the one that led to it on the list it stands on. -/
theorem linkSlot_unlink (h : SlotSound c k sources) {t : BlockId} (ht : (c.linkSlot id k).target = some t) :
    ((∃ after, sources t = id :: after) ∧
      c.unlink t k id = c.modifyLink t k fun l => { l with source := (c.linkSlot id k).next }) ∨
    ∃ init p after, sources t = init ++ p :: id :: after ∧
      c.unlink t k id = c.modifyLink p k fun l => { l with next := (c.linkSlot id k).next } := by
  have hmem : id ∈ sources t := (h.mem id t).mpr ht
  have hpath := h.path t
  obtain ⟨before, after, hlist, hbefore, -⟩ := hpath.tail_of_mem hmem
  cases before with
  | nil =>
      refine Or.inl ⟨⟨after, hlist⟩, ?_⟩
      have hsource : (c.linkSlot t k).source = some id := hbefore
      rw [unlink, hsource]
      simp
  | cons head mid =>
      have hsource : (c.linkSlot t k).source = some head := hbefore.1
      have hne : head ≠ id := by
        rintro rfl
        have hnodup := hpath.nodup
        rw [hlist] at hnodup
        simp at hnodup
      have hlen := h.length_le t
      rw [hlist] at hlen hpath
      rw [hsource] at hpath
      have hfind := sourceBefore_eq c id k (n := c.blocks.size) hpath
        (by simp only [List.length_append, List.length_cons] at hlen; omega)
      refine Or.inr ⟨(head :: mid).dropLast, (head :: mid).getLast (List.cons_ne_nil head mid), after, ?_, ?_⟩
      · have hsplit := List.dropLast_append_getLast (List.cons_ne_nil head mid)
        rw [hlist]
        conv_lhs => rw [← hsplit]
        simp only [List.append_assoc, List.cons_append, List.nil_append]
      · rw [unlink, hsource]
        simp only [hne, if_false, hfind]

/-- Lists from which a block was taken, given that the block itself was sent to its stub. -/
theorem erase (h : SlotSound c k sources) {c' : Cache}
    (htarget : ∀ x, (c'.linkSlot x k).target = if x = id then none else (c.linkSlot x k).target)
    (hnext : ∀ x, (c.linkSlot x k).target = none → (c'.linkSlot x k).next = (c.linkSlot x k).next)
    (hid : (c'.linkSlot id k).next = none)
    (hpath : ∀ b, Path (fun a => (c'.linkSlot a k).next) (c'.linkSlot b k).source ((sources b).erase id) none) :
    SlotSound c' k fun b => (sources b).erase id := by
  refine ⟨hpath, fun a b => ?_, fun a ha => ?_⟩
  · rw [(h.path b).nodup.mem_erase_iff, h.mem, htarget]
    by_cases ha : a = id
    · simp [ha]
    · simp [ha]
  · by_cases hx : a = id
    · rw [hx, hid]
    · rw [htarget, if_neg hx] at ha
      rw [hnext a ha, h.idle a ha]

/-- A block that nothing leads to is taken off the list it stands on and sent to its stub. -/
theorem dropTarget_resetLink (h : SlotSound c k sources) (hid : id < c.blocks.size) (hnone : sources id = []) :
    SlotSound ((dropTarget id c k).resetLink id k) k fun b => (sources b).erase id := by
  have hnotMem : ∀ b, (c.linkSlot id k).target ≠ some b → (sources b).erase id = sources b := fun b hb =>
    List.erase_of_not_mem fun hmem => hb ((h.mem id b).mp hmem)
  rcases htarget : (c.linkSlot id k).target with _ | t
  · have hslot : ∀ x, ((dropTarget id c k).resetLink id k).linkSlot x k = c.linkSlot x k := by
      intro x
      rw [dropTarget, htarget]
      simp only
      rw [linkSlot_resetLink c id x k k hid]
      split
      · rename_i hx
        rw [hx.1, idleSlot_of_idle htarget (h.idle id htarget)]
      · rfl
    refine h.erase (fun x => ?_) (fun x _ => by rw [hslot]) (by rw [hslot, h.idle id htarget]) fun b => ?_
    · rw [hslot]
      split
      · rename_i hx
        rw [hx, htarget]
      · rfl
    · rw [hnotMem b (by simp [htarget]), hslot]
      exact (h.path b).congr fun a _ => by rw [hslot]
  · have hmem : id ∈ sources t := (h.mem id t).mpr htarget
    have htid : t ≠ id := by
      rintro rfl
      rw [hnone] at hmem
      exact absurd hmem (by simp)
    have hsize : id < (c.unlink t k id).blocks.size := by rwa [(LinksApart.unlink c t k id).size]
    have hdrop : dropTarget id c k = c.unlink t k id := by rw [dropTarget, htarget]
    rw [hdrop]
    -- Both ways of unlinking keep all targets; they differ in which link is made to lead past the block.
    have hslot : ∀ x, ((c.unlink t k id).resetLink id k).linkSlot x k =
        if x = id then idleSlot ((c.unlink t k id).linkSlot x k) else (c.unlink t k id).linkSlot x k := by
      intro x
      rw [linkSlot_resetLink _ id x k k hsize]
      simp
    have herase : ∀ b, b ≠ t → (sources b).erase id = sources b := fun b hb =>
      hnotMem b fun h' => hb (Option.some.inj (h'.symm.trans htarget))
    have hapart : ∀ b, b ≠ t → ∀ a ∈ sources b, a ≠ id := fun b hb a ha haid =>
      hb (Option.some.inj (((h.mem a b).mp ha).symm.trans (haid ▸ htarget)))
    have hnodup := (h.path t).nodup
    have hpath := h.path t
    rcases h.linkSlot_unlink htarget with ⟨⟨after, hlist⟩, hunlink⟩ | ⟨init, p, after, hlist, hunlink⟩
    · have htlt : t < c.blocks.size := by
        by_contra hlt
        rw [hlist, linkSlot_of_size_le (Nat.le_of_not_lt hlt)] at hpath
        exact absurd hpath.1 (by simp)
      have hun : ∀ x, (c.unlink t k id).linkSlot x k =
          if x = t then { c.linkSlot x k with source := (c.linkSlot id k).next } else c.linkSlot x k := by
        intro x
        rw [hunlink, linkSlot_modifyLink]
        by_cases hx : x = t
        · subst hx
          simp [htlt]
        · simp [hx]
      have hnext : ∀ x, x ≠ id →
          (((c.unlink t k id).resetLink id k).linkSlot x k).next = (c.linkSlot x k).next := by
        intro x hx
        rw [hslot, if_neg hx, hun]
        split <;> rfl
      refine h.erase (fun x => ?_) (fun x hx => hnext x fun h' => by simp [h', htarget] at hx) ?_ fun b => ?_
      · rw [hslot, hun]
        split
        · rfl
        · split <;> rfl
      · rw [hslot, if_pos rfl]
        rfl
      · by_cases hb : b = t
        · subst hb
          rw [hslot, if_neg htid, hun, if_pos rfl, hlist, List.erase_cons_head]
          rw [hlist] at hpath
          exact hpath.skip_head fun a ha => hnext a ha
        · rw [herase b hb]
          have hsource : (((c.unlink t k id).resetLink id k).linkSlot b k).source = (c.linkSlot b k).source := by
            rw [hslot, hun, if_neg hb]
            split <;> rfl
          rw [hsource]
          exact (h.path b).congr fun a ha => hnext a (hapart b hb a ha)
    · have hp : (c.linkSlot p k).target = some t := (h.mem p t).mp (by simp [hlist])
      rw [hlist] at hnodup hpath
      simp only [List.nodup_append, List.nodup_cons, List.mem_cons, not_or, ne_eq, forall_eq_or_imp] at hnodup
      obtain ⟨-, ⟨⟨hpid, -⟩, -⟩, hinit⟩ := hnodup
      have hun : ∀ x, (c.unlink t k id).linkSlot x k =
          if x = p then { c.linkSlot x k with next := (c.linkSlot id k).next } else c.linkSlot x k := by
        intro x
        rw [hunlink, linkSlot_modifyLink]
        by_cases hx : x = p
        · subst hx
          simp [lt_size_of_target hp]
        · simp [hx]
      have hnext : ∀ x, x ≠ p → x ≠ id →
          (((c.unlink t k id).resetLink id k).linkSlot x k).next = (c.linkSlot x k).next := by
        intro x hx hxid
        rw [hslot, if_neg hxid, hun, if_neg hx]
      have hsource : ∀ x, (((c.unlink t k id).resetLink id k).linkSlot x k).source = (c.linkSlot x k).source := by
        intro x
        rw [hslot, hun]
        split
        · split <;> rfl
        · split <;> rfl
      refine h.erase (fun x => ?_) (fun x hx => hnext x (fun h' => by simp [h', hp] at hx)
        fun h' => by simp [h', htarget] at hx) ?_ fun b => ?_
      · rw [hslot, hun]
        split
        · rfl
        · split <;> rfl
      · rw [hslot, if_pos rfl]
        rfl
      · rw [hsource]
        by_cases hb : b = t
        · subst hb
          rw [hlist, List.erase_append_right _ fun h' => (hinit id h').2.1 rfl, List.erase_cons_tail (by simpa using hpid),
            List.erase_cons_head]
          refine hpath.bypass hnext ?_
          rw [hslot, if_neg hpid, hun, if_pos rfl]
        · rw [herase b hb]
          refine (h.path b).congr fun a ha => hnext a (fun h' => ?_) (hapart b hb a ha)
          exact hb (Option.some.inj (((h.mem a b).mp ha).symm.trans (h' ▸ hp)))

end SlotSound

/-! ### Severing a block -/

theorem linkSlot_unlink_ne {k' : Slot} (hk : k' ≠ k) (t : BlockId) : (c.unlink t k id).linkSlot x k' = c.linkSlot x k' := by
  unfold unlink
  dsimp only
  split
  · rfl
  · split
    · rw [linkSlot_modifyLink, if_neg fun h => hk h.2.1]
    · split
      · rfl
      · rw [linkSlot_modifyLink, if_neg fun h => hk h.2.1]

theorem target_unlink (t : BlockId) : ((c.unlink t k id).linkSlot x k').target = (c.linkSlot x k').target := by
  have hmodify : ∀ (b : BlockId) (f : LinkSlot → LinkSlot), (∀ l, (f l).target = l.target) →
      ((c.modifyLink b k f).linkSlot x k').target = (c.linkSlot x k').target := by
    intro b f hf
    rw [linkSlot_modifyLink]
    split
    · rw [hf]
    · rfl
  unfold unlink
  dsimp only
  split
  · rfl
  · split
    · exact hmodify _ _ fun _ => rfl
    · split
      · rfl
      · exact hmodify _ _ fun _ => rfl

theorem linkTable_unlink (t : BlockId) : (c.unlink t k id).linkTable = c.linkTable := by
  unfold unlink
  dsimp only
  split
  · rfl
  · split
    · rfl
    · split <;> rfl

theorem target_dropTarget : ((dropTarget id c k).linkSlot x k').target = (c.linkSlot x k').target := by
  unfold dropTarget
  split
  · exact target_unlink c id x k k' _
  · rfl

theorem linkTable_dropTarget : (dropTarget id c k).linkTable = c.linkTable := by
  unfold dropTarget
  split
  · exact linkTable_unlink c id k _
  · rfl

theorem linkSlot_dropTarget_ne {k' : Slot} (hk : k' ≠ k) : (dropTarget id c k).linkSlot x k' = c.linkSlot x k' := by
  unfold dropTarget
  split
  · exact linkSlot_unlink_ne c id x k hk _
  · rfl

namespace SlotSound

variable {c k} {sources : BlockId → List BlockId} {id}

theorem severSlot (h : SlotSound c k sources) (hid : id < c.blocks.size) :
    SlotSound (severSlot id c k) k fun b => (Function.update sources id [] b).erase id := by
  have hsize : id < (Cache.dropSources id c k).blocks.size := by rwa [(LinksApart.dropSources id c k).size]
  exact (h.dropSources hid).dropTarget_resetLink hsize (Function.update_self ..)

theorem target_severSlot (h : SlotSound c k sources) (hid : id < c.blocks.size) (x : BlockId) :
    ((Cache.severSlot id c k).linkSlot x k).target =
      if x = id ∨ (c.linkSlot x k).target = some id then none else (c.linkSlot x k).target := by
  have hsize : id < (dropTarget id (Cache.dropSources id c k) k).blocks.size := by
    rwa [(LinksApart.dropTarget id _ k).size, (LinksApart.dropSources id c k).size]
  have hdrop : ((Cache.dropSources id c k).linkSlot x k).target =
      if (c.linkSlot x k).target = some id then none else (c.linkSlot x k).target := by
    rw [h.linkSlot_dropSources hid]
    simp only [if_true]
    split
    · rfl
    · split <;> rfl
  unfold Cache.severSlot
  rw [linkSlot_resetLink _ id x k k hsize]
  by_cases hx : x = id
  · simp [hx, idleSlot]
  · simp [hx, target_dropTarget, hdrop]

/-- The other slot is left alone. -/
theorem linkSlot_severSlot_ne (h : SlotSound c k sources) (hid : id < c.blocks.size) {k' : Slot} (hk : k' ≠ k)
    (x : BlockId) : (Cache.severSlot id c k).linkSlot x k' = c.linkSlot x k' := by
  have hsize : id < (dropTarget id (Cache.dropSources id c k) k).blocks.size := by
    rwa [(LinksApart.dropTarget id _ k).size, (LinksApart.dropSources id c k).size]
  unfold Cache.severSlot
  rw [linkSlot_resetLink _ id x k k' hsize, if_neg fun h' => hk h'.2, linkSlot_dropTarget_ne _ id x k hk,
    h.linkSlot_dropSources hid, if_neg hk]

theorem linkEntry_severSlot (h : SlotSound c k sources) (hid : id < c.blocks.size)
    (htable : c.linkTable.size = 2 * c.blocks.size) (x : BlockId) (k' : Slot) :
    (Cache.severSlot id c k).linkEntry x k' =
      if k' = k ∧ (x = id ∨ (c.linkSlot x k).target = some id) then c.stubs.get k else c.linkEntry x k' := by
  have hsources := LinksApart.dropSources id c k
  have htarget := LinksApart.dropTarget id (Cache.dropSources id c k) k
  have hentry : (dropTarget id (Cache.dropSources id c k) k).linkEntry x k' =
      if k' = k ∧ (c.linkSlot x k).target = some id then c.stubs.get k else c.linkEntry x k' := by
    have hapart := LinksApart.modifyLink c id k fun l => { l with source := none }
    rw [linkEntry, linkTable_dropTarget, ← linkEntry, Cache.dropSources,
      linkEntry_resetSources (l := sources id) (by rw [hapart.tableSize, hapart.size, htable])
        ((h.path id).congr fun a _ => by rw [linkSlot_modifyLink]; split <;> rfl)
        (by rw [hapart.size]; exact (h.length_le id).trans (Nat.le_succ _))
        (fun a ha => by rw [hapart.size]; exact h.lt_size ha)]
    simp only [h.mem]
    rfl
  have hstubs : (dropTarget id (Cache.dropSources id c k) k).stubs = c.stubs := (hsources.trans htarget).stubs
  unfold Cache.severSlot
  rw [linkEntry_resetLink _ id x k k' (by rw [htarget.tableSize, hsources.tableSize, htarget.size, hsources.size, htable])
    (by rwa [htarget.size, hsources.size]), hentry, hstubs]
  by_cases hk : k' = k
  · by_cases hx : x = id
    · simp [hk, hx]
    · simp [hk, hx]
  · simp [hk]

end SlotSound

end Recompiler.Cache
