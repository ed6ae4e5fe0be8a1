import Recompiler.Proofs.Dispatch.Arena
import Recompiler.Proofs.Dispatch.Visited

/-! The two parts of a block that stands on two pages. They know each other as long as both are there, and whatever clears
one of them clears the other and gives the companion's descriptor back. -/

namespace Recompiler

namespace Cache

variable {c c' : Cache} {a b : BlockId}

/-- The free descriptors, the next one to use first. -/
def freeDescriptors (c : Cache) : List BlockId :=
  chain (fun b => (c.block b).freeNext) c.blocks.size c.freeHead

theorem Pool.freeDescriptors_eq {next : BlockId → Option BlockId} {size : BlockId → Nat} {spans free : List BlockId}
    {loose : Option BlockId} (h : Pool c next size spans free loose) : c.freeDescriptors = free := by
  refine h.freePath.chain_eq ?_
  have hrange : free ⊆ List.range c.blocks.size := fun x hx => List.mem_range.mpr (h.free_lt x hx)
  have hlength := (h.freePath.nodup.subperm hrange).length_le
  rwa [List.length_range] at hlength

/-- What clears blocks: a store that is seen by the cache, opening a span for a new block, looking for the monitor of a
page, which may be taken from another page or be installed anew for the other code size, and giving up a block. -/
inductive Clearing (c : Cache) : Cache → Prop where
  | write (mem : Memory) {paddr : UInt32} {w : Width} (value : UInt32) (hfit : pageOffset paddr + w.bytes ≤ pageSize) :
      Clearing c (c.write mem paddr w value).2
  | writeChecked (mem : Memory) {paddr : UInt32} {w : Width} (value : UInt32) (running : Option BlockId)
      (hfit : pageOffset paddr + w.bytes ≤ pageSize) : Clearing c (c.writeChecked mem paddr w value running).2.2
  | codePage {mem mem' : Memory} {linear : UInt32} {code32 : Bool} {keep : Option MonitorId}
      {r : Except PageFault (Option MonitorId)} {c' : Cache} (hkeep : ∀ m, keep = some m → (c.monitor m).code32 = code32)
      (hr : c.codePage mem linear code32 keep = .ok (r, mem', c')) : Clearing c c'
  | openBlock : Clearing c c.openBlock.2
  | clearBlock {id : BlockId} (hlive : (c.block id).live = true) : Clearing c (c.clearBlock id)

/-- What else is done to the cache, in a run or while a block is compiled: two blocks are linked, a block is opened where
there is none, takes in a byte, goes on to a second page, and is closed. -/
inductive Works (c : Cache) : Cache → Prop where
  | clearing {c' : Cache} (h : Clearing c c') : Works c c'
  | link {id target : BlockId} {slot : Slot} (hid : c.Runnable id) (htarget : c.Runnable target)
      (hfree : (c.linkSlot id slot).target = none) : Works c (c.link id slot target)
  | site {cpu : Cpu} {m : MonitorId} (hm : (c.monitor m).installed = true)
      (hfind : c.find m (pageOffset cpu.ipLinear) = none) : Works c (Compile.openSite cpu m c).2
  | take (m : MonitorId) (id : BlockId) (hot : Bool) {j : Nat} (hj : j < pageSize) : Works c (c.takeByte m id hot j)
  | join {m : MonitorId} {id o : BlockId} {d : Cache} (halloc : c.allocate = .ok (o, d)) (hid : Pairable d m id) :
      Works c ((d.addCompanion m o).pair id o)
  | close {id : BlockId} {written : Nat} {c' : Cache} (hactive : c.active = id) (hfinish : c.finish id written = (.ok (), c')) :
      Works c c'

/-- Clearing keeps the cache sound, leaves other blocks as they are and makes no block a companion. -/
theorem Clearing.spec (h : Clearing c c') (hs : Sound c) :
    Sound c' ∧ c'.blocks.size = c.blocks.size ∧
    (∀ x, (c'.block x).live = true → (c'.block x).core = (c.block x).core) ∧ Fades c c' := by
  cases h with
  | write mem value hfit =>
      have hsaved : Saved mem c _ (c.write mem _ _ value).2 := .write hs hfit
      exact ⟨hsaved.sound, hsaved.narrows.size, hsaved.narrows.core, hsaved.toFades⟩
  | writeChecked mem value running hfit =>
      have hsaved : Saved mem c _ (c.writeChecked mem _ _ value running).2.2 := .writeChecked hs hfit running
      exact ⟨hsaved.sound, hsaved.narrows.size, hsaved.narrows.core, hsaved.toFades⟩
  | codePage hkeep hr =>
      have hfades := Fades.codePage hr
      rcases codePage_spec hs (fun _ _ m _ hcode hm => hcode (hkeep m hm)) hr with ⟨fault, -, -, -, rfl⟩ | ⟨paddr, -, hpaged, -⟩
      · exact ⟨hs, rfl, fun _ _ => rfl, hfades⟩
      · exact ⟨hpaged.sound, hpaged.narrows.size, hpaged.narrows.core, hfades⟩
  | openBlock =>
      have hopened := openBlock_spec hs
      exact ⟨hopened.sound, hopened.shrinks.same.size, hopened.shrinks.core, (Clears.openBlock c).fades⟩
  | clearBlock hlive =>
      have hshrinks := Shrinks.clearBlock hs.toArranged hlive
      exact ⟨hs.clearBlock hlive, hshrinks.same.size, hshrinks.core, (Clears.clearBlock c _).fades⟩

theorem Works.sound (h : Works c c') (hs : Sound c) : Sound c' := by
  cases h with
  | clearing h => exact (h.spec hs).1
  | link hid htarget hfree => exact hs.link hid htarget hfree
  | site hm hfind => exact (openSite_spec hs hm hfind).sound
  | take m id hot hj => exact hs.takeByte m id hot hj
  | join halloc hid => exact (allocate_spec hs halloc).unlisted.pair hid
  | close hactive hfinish => exact (finish_spec hs hactive hfinish).sound

theorem Sound.works (hs : Sound c) (h : Relation.ReflTransGen Works c c') : Sound c' := by
  induction h with
  | refl => exact hs
  | tail _ hstep ih => exact hstep.sound ih

/-- The other part of a block that is left is left too. -/
theorem companion_of_core (hs : Sound c') (hcore : ∀ x, (c'.block x).live = true → (c'.block x).core = (c.block x).core)
    (hab : (c.block a).companion = some b) (ha : (c'.block a).live = true) :
    (c'.block a).companion = some b ∧ (c'.block b).live = true := by
  have hab' : (c'.block a).companion = some b := (Block.companion_eq_of_core (hcore a ha)).trans hab
  exact ⟨hab', hs.paired.live b a (hs.paired.symm a b hab')⟩

/-- A companion that was cleared is on the list of free descriptors, once. -/
theorem Sound.count_freeDescriptors (hs : Sound c) (hb : b < c.blocks.size) (hdead : (c.block b).live = false)
    (hcomp : (c.block b).isCompanion = true) : c.freeDescriptors.count b = 1 := by
  obtain ⟨spans, free, hpool⟩ := hs.layout.pool
  rw [hpool.freeDescriptors_eq]
  refine List.count_eq_one_of_mem hpool.freePath.nodup ?_
  rcases hpool.placed b hb (by simp) with hspan | hfree | ⟨hlive, -⟩
  · exact absurd ((hpool.ordinary b hspan).symm.trans hcomp) (by simp)
  · exact hfree
  · exact absurd (hdead.symm.trans hlive) (by simp)

theorem Sound.notMem_freeDescriptors (hs : Sound c) (hlive : (c.block b).live = true) : b ∉ c.freeDescriptors := by
  obtain ⟨spans, free, hpool⟩ := hs.layout.pool
  rw [hpool.freeDescriptors_eq]
  exact fun hmem => absurd ((hpool.free_dead b hmem).symm.trans hlive) (by simp)

/-- What becomes of the two parts of a block when blocks are cleared: both are left, or both go and the companion becomes a
free descriptor. -/
theorem Clearing.pair (h : Clearing c c') (hs : Sound c) (hab : (c.block a).companion = some b)
    (hcomp : (c.block b).isCompanion = true) :
    ((c'.block a).live = true ∧ (c'.block b).live = true ∧ (c'.block a).companion = some b) ∨
    ((c'.block a).live = false ∧ (c'.block b).live = false ∧ (c'.block a).companion = none ∧ (c'.block b).companion = none ∧
      b ∉ c.freeDescriptors ∧ c'.freeDescriptors.count b = 1) := by
  obtain ⟨hs', hsize, hcore, hfades⟩ := h.spec hs
  have hba := hs.paired.symm a b hab
  have hblive := hs.paired.live b a hba
  cases ha : (c'.block a).live with
  | true =>
      obtain ⟨hab', hb'⟩ := companion_of_core hs' hcore hab ha
      exact .inl ⟨rfl, hb', hab'⟩
  | false =>
      have hb' : (c'.block b).live = false := by
        by_contra hb'
        have hback := (companion_of_core hs' hcore hba (by simpa using hb')).2
        rw [ha] at hback
        cases hback
      have hbsize : b < c'.blocks.size := hsize ▸ lt_size_of_live hblive
      exact .inr ⟨rfl, hb', hs'.paired.companion_of_dead ha, hs'.paired.companion_of_dead hb', hs.notMem_freeDescriptors hblive,
        hs'.count_freeDescriptors hbsize hb' ((hfades.isCompanion b).trans hcomp)⟩

end Cache

namespace Engine

open Cache

/-- In every state that can be reached, also while a block is compiled, the parts of a block on two pages know each other:
both are there, and one of them is a companion, which starts its page and is in the first bucket there. A companion has its
other part, and a descriptor that holds no code has none. Stores, the eviction of spans and the taking of pages leave
both parts of a block or clear both, and then the descriptor of the companion is free, which it was not before. -/
theorem companion_symm_and_cleared_together {σ : Type} {p : Platform σ} (hp : p.Confined .free) {e : Engine σ} {phase : Phase}
    {log : List Compilation} {record : List MonitorId} (h : Visits .free p e phase log record) {c : Cache}
    (hc : Relation.ReflTransGen Works e.cache c) :
    (∀ a b, (c.block a).companion = some b ↔ (c.block b).companion = some a) ∧
    (∀ a b, (c.block a).companion = some b →
      (c.block a).live = true ∧ (c.block b).live = true ∧ (c.block b).isCompanion = !(c.block a).isCompanion) ∧
    (∀ b n, (c.block b).owner = some n → (c.block b).isCompanion = true →
      (c.block b).start = 0 ∧ b ∈ (c.monitor n).bucket 0 ∧ ∃ a, (c.block b).companion = some a) ∧
    (∀ a, (c.block a).live = false → (c.block a).companion = none) ∧
    ∀ c', Clearing c c' → ∀ a b, (c.block a).companion = some b → (c.block b).isCompanion = true →
      ((c'.block a).live = true ∧ (c'.block b).live = true ∧ (c'.block a).companion = some b) ∨
      ((c'.block a).live = false ∧ (c'.block b).live = false ∧ (c'.block a).companion = none ∧
        (c'.block b).companion = none ∧ b ∉ c.freeDescriptors ∧ c'.freeDescriptors.count b = 1) := by
  have hs : Sound c := (h.keeps (Housed.upkeep _ fun _ => True) hp fun _ _ => trivial).1.sound.works hc
  have hpaired := hs.paired
  refine ⟨fun a b => ⟨hpaired.symm a b, hpaired.symm b a⟩, fun a b hab => ?_, fun b n howner hcomp => ?_,
    fun a => hpaired.companion_of_dead, fun c' hclear a b hab hcomp => hclear.pair hs hab hcomp⟩
  · exact ⟨hpaired.live a b hab, hpaired.live b a (hpaired.symm a b hab), hpaired.kind a b hab⟩
  · have hlive := live_iff.mpr ⟨n, howner⟩
    have hbucket : (c.block b).bucket = 0 := by simpa [Block.isCompanion] using hcomp
    exact ⟨hs.registry.companion b hlive hcomp, (hs.registry.mem_bucket n 0 b).mpr ⟨howner, hbucket⟩,
      Option.isSome_iff_exists.mp (hpaired.partner b hlive hcomp)⟩

/-- A jump to itself is given a second part. When the block is cleared, its second part goes too. -/
theorem companion_symm_and_cleared_together_loop :
    ∃ (e : Engine Interpreter) (phase : Phase) (log : List Compilation) (record : List MonitorId) (c : Cache) (o : BlockId),
      Visits .free Interpreter.platform e phase log record ∧ Relation.ReflTransGen Works e.cache c ∧
        (c.block 0).companion = some o ∧ (c.block o).companion = some 0 ∧ Clearing c (c.clearBlock 0) ∧
        ((c.clearBlock 0).block o).live = false ∧ (c.clearBlock 0).freeDescriptors.count o = 1 := by
  obtain ⟨id, mem, c, code, hcreate, hc⟩ := Machine.exists_created
    (r := Compile.createBlock .flat32 0 (Machine.onePage 0 [0xEB, 0xFE]) Machine.watchedCache Machine.scantCode)
    (fun _ c _ => c.allocate.toOption.elim false fun out =>
      let paired := (out.2.addCompanion 0 out.1).pair 0 out.1
      (out.2.monitor 0).installed && (out.2.block 0).live && !(out.2.block 0).isCompanion && (out.2.block 0).companion.isNone &&
        (paired.block 0).companion == some out.1 && (paired.block out.1).isCompanion && !((paired.clearBlock 0).block 0).live)
    (by decide +kernel)
  obtain ⟨hprepare, -⟩ := Machine.prepareBlock_onePage (by decide) rfl hcreate
  obtain ⟨r, record, hr, hvisit⟩ :=
    (Machine.History.prepare (Machine.history_onePageMachine (R := .free) _ trivial _) hprepare).visits (Interpreter.platform_confined _)
  obtain rfl : ⟨c, code⟩ = r := Option.some.inj hr
  cases halloc : c.allocate with
  | error abort =>
      rw [halloc] at hc
      cases hc
  | ok out =>
      obtain ⟨o, d⟩ := out
      rw [halloc] at hc
      simp only [Except.toOption, Option.elim_some, Bool.and_eq_true, Bool.not_eq_true', Option.isNone_iff_eq_none, beq_iff_eq] at hc
      obtain ⟨⟨⟨⟨⟨⟨hinst, hlive⟩, hord⟩, hsingle⟩, hpair⟩, hcomp⟩, hdead⟩ := hc
      have hworks : Relation.ReflTransGen Works c ((d.addCompanion 0 o).pair 0 o) :=
        .single (.join halloc ⟨hinst, hlive, hord, hsingle⟩)
      obtain ⟨hsymm, hboth, -, -, hcleared⟩ :=
        companion_symm_and_cleared_together (Interpreter.platform_confined _) hvisit hworks
      have hclear := Clearing.clearBlock (hboth 0 o hpair).1
      rcases hcleared _ hclear 0 o hpair hcomp with ⟨hleft, -⟩ | ⟨-, hgone, -, -, -, hfree⟩
      · exact absurd (hdead.symm.trans hleft) (by simp)
      · exact ⟨_, _, _, _, _, o, hvisit, hworks, hpair, (hsymm 0 o).mp hpair, hclear, hgone, hfree⟩

end Engine

end Recompiler
