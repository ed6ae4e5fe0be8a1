import Recompiler.Proofs.Cache.Links

/-! The link table. The entry of a slot is the address of the code of the block it leads to, or of its stub; severing
a block and linking two of them keep it so. -/

namespace Recompiler.Cache

/-- The host address for a slot that leads to a block, or to its stub. -/
def slotAddr (c : Cache) (k : Slot) : Option BlockId → Nat
  | some b => c.codeAddr b
  | none => c.stubs.get k

/-- The lists of sources are sound, links run between blocks with a property, and the table holds the addresses that
the slots lead to. -/
structure Linked (c : Cache) (P : BlockId → Prop) : Prop where
  tableSize : c.linkTable.size = 2 * c.blocks.size
  slots : ∀ k, ∃ sources, SlotSound c k sources
  ends : ∀ a b k, (c.linkSlot a k).target = some b → P a ∧ P b
  entry : ∀ a < c.blocks.size, ∀ k, c.linkEntry a k = c.slotAddr k (c.linkSlot a k).target

variable {c c' : Cache} {P Q : BlockId → Prop} {id x : BlockId} {k k' : Slot}

theorem SlotSound.congr {sources : BlockId → List BlockId} (h : SlotSound c k sources)
    (hslot : ∀ x, c'.linkSlot x k = c.linkSlot x k) : SlotSound c' k sources := by
  refine ⟨fun b => ?_, fun a b => ?_, fun a ha => ?_⟩
  · rw [hslot]
    exact (h.path b).congr fun a _ => by rw [hslot]
  · rw [hslot]
    exact h.mem a b
  · rw [hslot] at ha ⊢
    exact h.idle a ha

namespace LinksApart

theorem codeAddr (h : LinksApart c c') (x : BlockId) : c'.codeAddr x = c.codeAddr x := by
  have hbase := congrArg Cache.arenaBase h.shell
  have hstart := Block.codeStart_eq_of_core (h.core x)
  rw [Cache.codeAddr, Cache.codeAddr, hstart]
  exact congrArg (· + (c.block x).codeStart) hbase

theorem slotAddr (h : LinksApart c c') (k : Slot) (target : Option BlockId) : c'.slotAddr k target = c.slotAddr k target := by
  cases target with
  | none => exact congrArg (fun stubs : PerSlot Nat => stubs.get k) h.stubs
  | some b => exact h.codeAddr b

end LinksApart

namespace Linked

/-- Links depend on the slots, the table, and where the code of linked blocks stands. -/
theorem congr (h : Linked c P) (hsize : c'.blocks.size = c.blocks.size) (htable : c'.linkTable = c.linkTable)
    (hstubs : c'.stubs = c.stubs) (hbase : c'.arenaBase = c.arenaBase)
    (hslot : ∀ x k, c'.linkSlot x k = c.linkSlot x k)
    (hstart : ∀ x, P x → (c'.block x).codeStart = (c.block x).codeStart) (hQ : ∀ x, P x → Q x) : Linked c' Q := by
  refine ⟨?_, fun k => ?_, fun a b k hab => ?_, fun a ha k => ?_⟩
  · rw [htable, hsize]
    exact h.tableSize
  · obtain ⟨sources, hs⟩ := h.slots k
    exact ⟨sources, hs.congr fun x => hslot x k⟩
  · rw [hslot] at hab
    obtain ⟨ha, hb⟩ := h.ends a b k hab
    exact ⟨hQ a ha, hQ b hb⟩
  · have hentry := h.entry a (hsize ▸ ha) k
    rw [linkEntry, htable, ← linkEntry, hentry, hslot]
    cases htarget : (c.linkSlot a k).target with
    | none => rw [slotAddr, slotAddr, hstubs]
    | some b => rw [slotAddr, slotAddr, Cache.codeAddr, Cache.codeAddr, hbase, hstart b (h.ends a b k htarget).2]

/-- Links that run between blocks with one property also run between blocks with a weaker one. -/
theorem mono (h : Linked c P) (hQ : ∀ x, P x → Q x) : Linked c Q :=
  h.congr rfl rfl rfl rfl (fun _ _ => rfl) (fun _ _ => rfl) hQ

/-! ### Severing a block -/

section Sever

variable (h : Linked c P) (hid : id < c.blocks.size)
include h hid

theorem target_severSlot (x : BlockId) (k' : Slot) :
    ((Cache.severSlot id c k).linkSlot x k').target =
      if k' = k ∧ (x = id ∨ (c.linkSlot x k).target = some id) then none else (c.linkSlot x k').target := by
  obtain ⟨sources, hs⟩ := h.slots k
  by_cases hk : k' = k
  · subst hk
    rw [hs.target_severSlot hid]
    simp
  · rw [hs.linkSlot_severSlot_ne hid hk, if_neg fun h' => hk h'.1]

theorem severSlot (k : Slot) : Linked (Cache.severSlot id c k) P := by
  have hapart := LinksApart.severSlot id c k
  obtain ⟨sources, hs⟩ := h.slots k
  refine ⟨?_, fun k' => ?_, fun a b k' hab => ?_, fun a ha k' => ?_⟩
  · rw [hapart.tableSize, hapart.size]
    exact h.tableSize
  · by_cases hk : k' = k
    · subst hk
      exact ⟨_, hs.severSlot hid⟩
    · obtain ⟨sources', hs'⟩ := h.slots k'
      exact ⟨sources', hs'.congr (hs.linkSlot_severSlot_ne hid hk)⟩
  · rw [h.target_severSlot hid] at hab
    split at hab
    · exact absurd hab (by simp)
    · exact h.ends a b k' hab
  · rw [hs.linkEntry_severSlot hid h.tableSize, hapart.slotAddr, h.target_severSlot hid, h.entry a (hapart.size ▸ ha) k']
    split
    · rename_i hk
      rw [hk.1, slotAddr]
    · rfl

theorem target_sever (x : BlockId) (k : Slot) :
    ((c.sever id).linkSlot x k).target =
      if x = id ∨ (c.linkSlot x k).target = some id then none else (c.linkSlot x k).target := by
  have hfirst := h.severSlot hid .first
  have hsize : id < (Cache.severSlot id c .first).blocks.size := by rwa [(LinksApart.severSlot id c .first).size]
  rw [Cache.sever, hfirst.target_severSlot hsize, h.target_severSlot hid, h.target_severSlot hid]
  cases k <;> simp

/-- A severed block has no links any more. -/
theorem sever : Linked (c.sever id) fun x => P x ∧ x ≠ id := by
  have hfirst := h.severSlot hid .first
  have hsize : id < (Cache.severSlot id c .first).blocks.size := by rwa [(LinksApart.severSlot id c .first).size]
  have hboth : Linked (c.sever id) P := hfirst.severSlot hsize .second
  refine ⟨hboth.tableSize, hboth.slots, fun a b k hab => ?_, hboth.entry⟩
  rw [h.target_sever hid] at hab
  split at hab
  · exact absurd hab (by simp)
  · rename_i hne
    obtain ⟨ha, hb⟩ := h.ends a b k hab
    refine ⟨⟨ha, fun h' => hne (.inl h')⟩, hb, ?_⟩
    rintro rfl
    exact hne (.inr hab)

end Sever

end Linked

theorem SlotSound.stats_dropTarget {sources : BlockId → List BlockId} (h : SlotSound c k sources) :
    (dropTarget id c k).stats = c.stats := by
  unfold dropTarget
  split
  · rename_i t ht
    rcases h.linkSlot_unlink ht with ⟨-, hunlink⟩ | ⟨init, p, after, -, hunlink⟩
    · rw [hunlink]
      rfl
    · rw [hunlink]
      rfl
  · rfl

/-- Nothing amiss is found on the way: the block stands on the list of the block it leads to. -/
theorem SlotSound.stats_severSlot {sources : BlockId → List BlockId} (h : SlotSound c k sources) (hid : id < c.blocks.size) :
    (Cache.severSlot id c k).stats = c.stats := by
  have hdrop : (Cache.dropSources id c k).stats = c.stats := stats_resetSources k _ _ _
  calc (Cache.severSlot id c k).stats
      = (dropTarget id (Cache.dropSources id c k) k).stats := rfl
    _ = (Cache.dropSources id c k).stats := (h.dropSources hid).stats_dropTarget
    _ = c.stats := hdrop

theorem Linked.stats_sever (h : Linked c P) (hid : id < c.blocks.size) : (c.sever id).stats = c.stats := by
  have hsize : id < (Cache.severSlot id c .first).blocks.size := by rwa [(LinksApart.severSlot id c .first).size]
  obtain ⟨sources, hs⟩ := h.slots .first
  obtain ⟨sources', hs'⟩ := (h.severSlot hid .first).slots .second
  exact (hs'.stats_severSlot hsize).trans (hs.stats_severSlot hid)

/-! ### Linking two blocks -/

section Link

variable {target : BlockId}

theorem linkSlot_link (hid : id < c.blocks.size) (htarget : target < c.blocks.size) (x : BlockId) (k' : Slot) :
    (c.link id k target).linkSlot x k' =
      if k' = k then
        { target := if x = id then some target else (c.linkSlot x k).target
          next := if x = id then (c.linkSlot target k).source else (c.linkSlot x k).next
          source := if x = target then some id else (c.linkSlot x k).source }
      else c.linkSlot x k' := by
  unfold link
  simp only [linkSlot_modifyStats, linkSlot_setLinkEntry, linkSlot_modifyLink, (LinksApart.modifyLink c id k _).size]
  by_cases hk : k' = k
  · subst hk
    by_cases hx : x = id
    · subst hx
      by_cases hxt : x = target
      · subst hxt
        simp [hid]
      · simp [hid, hxt]
    · by_cases hxt : x = target
      · subst hxt
        simp [hx, htarget]
      · simp [hx, hxt]
  · simp [hk]

theorem SlotSound.link {sources : BlockId → List BlockId} (h : SlotSound c k sources) (hid : id < c.blocks.size)
    (htarget : target < c.blocks.size) (hfree : (c.linkSlot id k).target = none) :
    SlotSound (c.link id k target) k (Function.update sources target (id :: sources target)) := by
  have hslot := fun x => linkSlot_link (k := k) hid htarget x k
  simp only [if_true] at hslot
  have hnot : ∀ b, id ∉ sources b := fun b hmem => by
    rw [h.mem, hfree] at hmem
    exact absurd hmem (by simp)
  have hpath : ∀ b start, Path (fun a => (c.linkSlot a k).next) start (sources b) none →
      Path (fun a => ((c.link id k target).linkSlot a k).next) start (sources b) none := by
    intro b start hp
    refine hp.congr fun a ha => ?_
    have hne : a ≠ id := fun h' => hnot b (h' ▸ ha)
    rw [hslot, if_neg hne]
    exact if_neg hne
  refine ⟨fun b => ?_, fun a b => ?_, fun a ha => ?_⟩
  · rw [hslot]
    dsimp only
    by_cases hb : b = target
    · subst hb
      rw [Function.update_self, if_pos rfl]
      refine ⟨rfl, ?_⟩
      dsimp only
      rw [hslot]
      dsimp only
      rw [if_pos rfl]
      exact hpath b _ (h.path b)
    · rw [Function.update_of_ne hb, if_neg hb]
      exact hpath b _ (h.path b)
  · rw [hslot]
    dsimp only
    by_cases ha : a = id
    · subst ha
      rw [if_pos rfl]
      by_cases hb : b = target
      · simp [hb]
      · rw [Function.update_of_ne hb]
        simp [hnot b, Ne.symm hb]
    · rw [if_neg ha, ← h.mem]
      by_cases hb : b = target
      · subst hb
        simp [ha]
      · rw [Function.update_of_ne hb]
  · rw [hslot] at ha ⊢
    dsimp only at ha ⊢
    split at ha
    · exact absurd ha (by simp)
    · rename_i hne
      rw [if_neg hne]
      exact h.idle a ha

theorem linkEntry_link (hsize : c.linkTable.size = 2 * c.blocks.size) (hid : id < c.blocks.size) (x : BlockId) (k' : Slot) :
    (c.link id k target).linkEntry x k' = if x = id ∧ k' = k then c.codeAddr target else c.linkEntry x k' := by
  unfold link
  simp only [linkEntry_modifyStats, linkEntry_setLinkEntry, linkEntry_modifyLink]
  by_cases hx : x = id ∧ k' = k
  · obtain ⟨rfl, rfl⟩ := hx
    rw [if_pos ⟨rfl, rfl, tableIndex_lt hsize hid k'⟩, if_pos ⟨rfl, rfl⟩]
    exact ((LinksApart.modifyLink c x k' _).trans (.modifyLink _ target k' _)).codeAddr target
  · rw [if_neg fun h' => hx ⟨h'.1, h'.2.1⟩, if_neg hx]

/-- A free slot of a block may be made to lead to another block, or to the block itself. -/
theorem Linked.link (h : Linked c P) (hid : id < c.blocks.size) (htarget : target < c.blocks.size) (hPid : P id)
    (hPtarget : P target) (hfree : (c.linkSlot id k).target = none) : Linked (c.link id k target) P := by
  have hapart := LinksApart.link c id k target
  have htargets : ∀ x k', ((c.link id k target).linkSlot x k').target =
      if x = id ∧ k' = k then some target else (c.linkSlot x k').target := by
    intro x k'
    rw [linkSlot_link hid htarget]
    by_cases hk : k' = k
    · subst hk
      simp
    · simp [hk]
  refine ⟨?_, fun k' => ?_, fun a b k' hab => ?_, fun a ha k' => ?_⟩
  · rw [hapart.tableSize, hapart.size]
    exact h.tableSize
  · obtain ⟨sources, hs⟩ := h.slots k'
    by_cases hk : k' = k
    · subst hk
      exact ⟨_, hs.link hid htarget hfree⟩
    · exact ⟨sources, hs.congr fun x => by rw [linkSlot_link hid htarget, if_neg hk]⟩
  · rw [htargets] at hab
    split at hab
    · rename_i hx
      obtain rfl := Option.some.inj hab
      exact ⟨hx.1 ▸ hPid, hPtarget⟩
    · exact h.ends a b k' hab
  · rw [linkEntry_link h.tableSize hid, hapart.slotAddr, htargets, h.entry a (hapart.size ▸ ha) k']
    split
    · rfl
    · rfl

end Link

end Recompiler.Cache
